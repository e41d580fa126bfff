import FaultRelay.Host

/-! The slots of the running thread. Once its storage is gone every type behaves as closed. -/
namespace FaultRelay.Slot

variable {V : Vocabulary} {σ α : Type}

def stack (key : Key V) : Quiet V σ (Stack key.Value) := return (← Quiet.thread).stack key

def setStack (key : Key V) (stack : Stack key.Value) : Quiet V σ Unit :=
  Quiet.modifyThread (·.setStack key stack)

def onStack {β : Type} (key : Key V) (change : Stack key.Value → β × Stack key.Value) :
    Quiet V σ β := do
  let (answer, later) := change (← stack key)
  setStack key later
  return answer

/-- Opens `key` for `owner` and answers with the depth; zero when there is no storage. -/
def openFor (key : Key V) (owner : Token) : Quiet V σ Nat := do
  setStack key ((← stack key).openFor owner)
  return (← stack key).depth

def close (key : Key V) (owner : Token) : Quiet V σ (Closed key.Value) :=
  onStack key (Stack.close owner)

def put (key : Key V) (id : Nat) (value : key.Value) : Quiet V σ (Stored key.Value) :=
  onStack key (Stack.put id value)

/-- The value of the innermost frame that is tagged with `id`, moved out of its frame. -/
def takeFor (key : Key V) (id : Nat) : Quiet V σ (Option key.Value) :=
  onStack key (Stack.takeFor id)

def valueFor (key : Key V) (id : Nat) : Quiet V σ (Option key.Value) :=
  return (← stack key).valueFor id

def isOpen (key : Key V) : Quiet V σ Bool := return (← stack key).isOpen

def depth (key : Key V) : Quiet V σ Nat := return (← stack key).depth

def topId? (key : Key V) : Quiet V σ (Option Nat) := return (← stack key).topId?

def holds (key : Key V) (id : Nat) : Quiet V σ Bool := return (← topId? key) == some id

/-- Changes the pair of the innermost frame; false if the type is not open. -/
def editTop (key : Key V) (change : Option (Nat × key.Value) → Option (Nat × key.Value)) :
    Quiet V σ Bool :=
  onStack key fun before =>
    (before.isOpen, before.onTop fun top => { top with held := change top.held })

def types : Quiet V σ Nat := return ((← Quiet.thread).store.map Store.types).getD 0

/-- Gives a lent value back to the innermost frame of its owner. It ends here if that frame is gone
or holds another value. -/
def restore [Host V σ] (key : Key V) (owner : Token) (id : Nat) (value : key.Value) :
    Quiet V σ Unit := do
  let now ← stack key
  match now.frameOf? owner with
  | some ⟨_, _, none⟩ => setStack key (now.onFrame owner (·.put id value))
  | _ => release key value

/-- Lends the value tagged with `id` to `use`. Its frame is empty meanwhile. -/
def lend [Host V σ] (key : Key V) (id : Nat) (use : key.Value → Act V σ α) :
    Act V σ (Option α) := do
  match (← quietly (stack key)).top? with
  | none => return none
  | some top =>
      match ← quietly (takeFor key id) with
      | none => return none
      | some value =>
          some <$> (use value).ensuring (quietly (restore key top.owner id value))

/-- Ends the storage of the thread, and then every value it still held: types in the order of first
opening, outermost frame first. -/
def endStorage [Host V σ] : Quiet V σ Unit := do
  let store ← (·.store) <$> Quiet.thread
  Quiet.modifyThread fun thread => { thread with store := none }
  match store with
  | none => pure ()
  | some store => store.entries.forM fun entry =>
      (entry.2.frames.reverse.filterMap Frame.value?).forM (release entry.1)

theorem onStack_apply {β : Type} (key : Key V) (change : Stack key.Value → β × Stack key.Value)
    (world : World V σ) :
    onStack key change world = ((change (world.thread.stack key)).1,
      { world with thread := world.thread.setStack key (change (world.thread.stack key)).2 }) := rfl

theorem valueFor_apply (key : Key V) (id : Nat) (world : World V σ) :
    valueFor key id world = ((world.thread.stack key).valueFor id, world) := rfl

theorem depth_apply (key : Key V) (world : World V σ) :
    depth key world = ((world.thread.stack key).depth, world) := rfl

theorem holds_apply (key : Key V) (id : Nat) (world : World V σ) :
    holds key id world = ((world.thread.stack key).topId? == some id, world) := rfl

theorem openFor_apply (key : Key V) (owner : Token) (world : World V σ) :
    openFor key owner world =
      (((world.thread.setStack key ((world.thread.stack key).openFor owner)).stack key).depth,
        { world with
          thread := world.thread.setStack key ((world.thread.stack key).openFor owner) }) := rfl

end FaultRelay.Slot
