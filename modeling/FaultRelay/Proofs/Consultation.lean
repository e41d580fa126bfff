import FaultRelay.Guard
import FaultRelay.Proofs.Outcome
import FaultRelay.Spawn

/-! What running code asks of the settings. They are installed, asked for, asked whether strays are
counted, and asked by every payload that finds no slot; each of these is a consultation, and has an
answer. Code is followed through its sequences, attempts, cleanups and threads down to steps that do
the same under all settings. No such step makes a tally: only a stray that was counted does. -/
namespace FaultRelay

variable {V : Vocabulary} {σ α β : Type}

inductive Consultation where
  | install (settings : Settings) (answer : Except Settings Unit)
  | current (answer : Settings)
  /-- Whether strays are counted on a thread where `wanted` open scopes want it. -/
  | tally (wanted : Nat) (answer : Bool)
  /-- A payload that found no open slot, and whether it was counted. -/
  | stray (payload : String) (id : FailureId) (wanted : Nat) (counted : Bool)

def Uncounted (past : List Consultation) : Prop :=
  ∀ payload id wanted, .stray payload id wanted true ∉ past

theorem Uncounted.left {past events : List Consultation} (uncounted : Uncounted (past ++ events)) :
    Uncounted past := fun payload id wanted listed =>
  uncounted payload id wanted (List.mem_append_left events listed)

theorem Uncounted.earlier {past later : List Consultation} (uncounted : Uncounted later)
    (goes : past <+: later) : Uncounted past := by
  obtain ⟨events, rfl⟩ := goes
  exact uncounted.left

def Thread.Untallied (thread : Thread V) : Prop :=
  ∀ frame ∈ (thread.stack .tally).frames, frame.held = none

/-- If a slot of the thread holds a tally, some stray in `past` was counted. -/
def Thread.Justified (past : List Consultation) (thread : Thread V) : Prop :=
  Uncounted past → thread.Untallied

theorem Thread.Justified.append {past : List Consultation} {thread : Thread V}
    (justified : thread.Justified past) (events : List Consultation) :
    thread.Justified (past ++ events) := fun uncounted => justified uncounted.left

theorem Thread.Untallied.justified {thread : Thread V} (untallied : thread.Untallied)
    (past : List Consultation) : thread.Justified past := fun _ => untallied

def World.under (world : World V σ) (settings : Option Settings) : World V σ :=
  { world with process.settings := settings }

/-- The operation does the same under all settings, and leaves them and the environment alone. -/
structure Act.Aloof (act : Act V σ α) : Prop where
  settings : ∀ world settings,
    act (world.under settings) = ((act world).1, (act world).2.under settings)
  environment : ∀ world, (act world).2.process.environment = world.process.environment

theorem Act.Aloof.kept {act : Act V σ α} (aloof : act.Aloof) (world : World V σ) :
    (act world).2.process.settings = world.process.settings :=
  congrArg (fun ended => ended.2.process.settings) (aloof.settings world world.process.settings)

theorem Act.Aloof.threaded {act : Quiet V σ α} (step : Thread V → α × Thread V)
    (same : ∀ world, act world =
      ((step world.thread).1, { world with thread := (step world.thread).2 })) :
    (quietly act).Aloof := by
  refine ⟨fun world settings => ?_, fun world => ?_⟩
  · change (Except.ok (act _).1, (act _).2) = (Except.ok (act world).1, (act world).2.under settings)
    rw [same, same]
    rfl
  · change (act world).2.process.environment = _
    rw [same]

def Consultation.ofStray [Observer σ] (key : Key V) (id : FailureId) (world : World V σ) :
    Consultation := .stray key.name id world.thread.tallying (tallying world).1

/-- Run after `past` in `world`, the code makes the consultations in `events`. -/
inductive Consults [Observer σ] :
    {α : Type} → List Consultation → Act V σ α → World V σ → List Consultation → Prop
  | aside {α : Type} {past : List Consultation} {act : Act V σ α} {world : World V σ}
      (aloof : act.Aloof)
      (honest : world.thread.Justified past → (act world).2.thread.Justified past) :
      Consults past act world []
  | install (past : List Consultation) (settings : Settings) (world : World V σ) :
      Consults past (quietly settings.install) world
        [.install settings (settings.install world).1]
  | current (past : List Consultation) (world : World V σ) :
      Consults past (quietly Settings.inForce) world [.current (Settings.inForce world).1]
  | tally (past : List Consultation) (world : World V σ) :
      Consults past (quietly tallying) world
        [.tally world.thread.tallying (tallying world).1]
  | stray (past : List Consultation) (key : Key V) (id : FailureId) (world : World V σ) :
      Consults past (quietly (noteStray key id)) world [.ofStray key id world]
  | returned {α β : Type} {past events more : List Consultation} {act : Act V σ α}
      {next : α → Act V σ β} {world : World V σ} {value : α} (first : Consults past act world events)
      (answer : (act world).1 = .ok value)
      (rest : Consults (past ++ events) (next value) (act world).2 more) :
      Consults past (act >>= next) world (events ++ more)
  | failed {α β : Type} {past events : List Consultation} {act : Act V σ α} {next : α → Act V σ β}
      {world : World V σ} {exit : Exit V} (first : Consults past act world events)
      (left : (act world).1 = .error exit) : Consults past (act >>= next) world events
  | attempt {α : Type} {past events : List Consultation} {act : Act V σ α} {world : World V σ}
      (body : Consults past act world events) : Consults past act.attempt world events
  | cleanup {α : Type} {past events more : List Consultation} {act : Act V σ α}
      {clean : Act V σ Unit} {world : World V σ} {object : Thrown V}
      (body : Consults past act world events)
      (unwound : (act world).1 = .error (.unwinding object))
      (cleaning : Consults (past ++ events) clean (act world).2 more) :
      Consults past (act.onUnwinding clean) world (events ++ more)
  | passed {α : Type} {past events : List Consultation} {act : Act V σ α} {clean : Act V σ Unit}
      {world : World V σ} (body : Consults past act world events)
      (intact : ∀ object, (act world).1 ≠ .error (.unwinding object)) :
      Consults past (act.onUnwinding clean) world events
  | thread {α : Type} {past events : List Consultation} {act : Act V σ α} {start : Thread V}
      {world : World V σ} (untallied : start.Untallied)
      (body : Consults past act { world with thread := start } events) :
      Consults past (act.onThread start) world events

namespace Consults

variable [Observer σ] {β : Type} {past events more : List Consultation} {world : World V σ}
  {act : Quiet V σ α} {next : α → Quiet V σ β}

theorem seq (first : Consults past (quietly act) world events)
    (rest : Consults (past ++ events) (quietly (next (act world).1)) (act world).2 more) :
    Consults past (quietly (act >>= next)) world (events ++ more) := by
  rw [quietly_bind]
  exact .returned first rfl rest

end Consults

section Settings

def Settings.verdict (settings : Settings) : Option Settings → Except Settings Unit
  | none => .ok ()
  | some _ => .error settings

theorem install_undecided [Observer σ] {world : World V σ} (undecided : world.process.settings = none)
    (settings : Settings) :
    settings.install world =
      (.ok (), (emit (.installed settings) (world.under (some settings))).2) := by
  obtain ⟨⟨drawn, decided, environment⟩, thread, host⟩ := world
  cases undecided
  rfl

theorem install_decided [Observer σ] {world : World V σ} (decided : world.process.settings ≠ none)
    (settings : Settings) : settings.install world = (.error settings, world) := by
  obtain ⟨⟨drawn, _ | installed, environment⟩, thread, host⟩ := world
  · exact absurd rfl decided
  · rfl

theorem install_answer [Observer σ] (settings : Settings) (world : World V σ) :
    (settings.install world).1 = settings.verdict world.process.settings := by
  rcases state : world.process.settings with _ | installed
  · rw [install_undecided state]
    rfl
  · rw [install_decided (by simp [state])]
    rfl

theorem install_process [Observer σ] (settings : Settings) (world : World V σ) :
    (settings.install world).2.process =
      { world.process with settings := some (world.process.settings.getD settings) } := by
  rcases state : world.process.settings with _ | installed
  · rw [install_undecided state]
    rfl
  · rw [install_decided (by simp [state]), Option.getD_some, ← state]

theorem install_thread [Observer σ] (settings : Settings) (world : World V σ) :
    (settings.install world).2.thread = world.thread := by
  rcases state : world.process.settings with _ | installed
  · rw [install_undecided state]
    rfl
  · rw [install_decided (by simp [state])]

theorem noteStray_process [Observer σ] (key : Key V) (id : FailureId) (world : World V σ) :
    (noteStray key id world).2.process =
      { world.process with settings := some world.settings } := by
  rw [noteStray_apply]
  dsimp only
  split <;> rfl

theorem noteStray_thread [Observer σ] (key : Key V) (id : FailureId) {world : World V σ}
    (uncounted : (tallying world).1 = false) :
    (noteStray key id world).2.thread = world.thread := by
  rw [tallying_apply] at uncounted
  dsimp only at uncounted
  rw [noteStray_apply, uncounted]
  rfl

end Settings

/-- A tally is justified wherever running code leaves it. -/
theorem Consults.justified [Observer σ] {past events : List Consultation} {act : Act V σ α}
    {world : World V σ} (consults : Consults past act world events)
    (before : world.thread.Justified past) :
    (act world).2.thread.Justified (past ++ events) := by
  induction consults with
  | aside _ honest => exact (honest before).append []
  | install past settings world =>
      change (settings.install world).2.thread.Justified _
      rw [install_thread]
      exact before.append _
  | current past world =>
      change (Settings.inForce world).2.thread.Justified _
      rw [inForce_apply]
      exact before.append _
  | tally past world =>
      change (tallying world).2.thread.Justified _
      rw [tallying_apply]
      exact before.append _
  | stray past key id world =>
      intro uncounted
      have ignored : (tallying world).1 = false := Bool.eq_false_iff.2 fun counted => by
        refine uncounted key.name id world.thread.tallying (List.mem_append_right past ?_)
        rw [Consultation.ofStray, counted]
        exact List.mem_cons_self
      change (noteStray key id world).2.thread.Untallied
      rw [noteStray_thread key id ignored]
      exact before uncounted.left
  | returned _ answer _ first rest =>
      rw [bind_ok answer, ← List.append_assoc]
      exact rest (first before)
  | failed _ left first =>
      rw [bind_error left]
      exact first before
  | @attempt _ _ _ act world _ body =>
      have same : (act.attempt world).2.thread.Untallied ↔ (act world).2.thread.Untallied := by
        unfold Act.attempt
        rcases act world with ⟨(object | _) | value, later⟩ <;> rfl
      exact fun uncounted => same.2 (body before uncounted)
  | cleanup _ unwound _ body cleaning =>
      rw [onUnwinding_cleanup unwound, ← List.append_assoc]
      exact cleaning (body before)
  | passed _ intact body =>
      rw [onUnwinding_passed intact]
      exact body before
  | thread untallied _ body => exact before.append _

namespace Consultation

def choice (environment : Option (List UInt8)) : Consultation → Settings
  | install settings _ => settings
  | current _ | tally _ _ | stray _ _ _ _ => .ofVariable environment

def decided (environment : Option (List UInt8)) (past : List Consultation) : Option Settings :=
  past.head?.map (choice environment)

/-- The answer is the one that is due when `before` was decided. -/
def Due (environment : Option (List UInt8)) (before : Option Settings) : Consultation → Prop
  | install settings answer => answer = settings.verdict before
  | current answer => answer = before.getD (.ofVariable environment)
  | tally wanted answer | stray _ _ wanted answer =>
      answer = ((before.getD (.ofVariable environment)).diagnostics && 0 < wanted)

/-- Every answer in `events` is the one that is due after what came before it. -/
def Lawful (environment : Option (List UInt8)) :
    List Consultation → List Consultation → Prop
  | _, [] => True
  | past, event :: rest =>
      event.Due environment (decided environment past) ∧ Lawful environment (past ++ [event]) rest

variable {environment : Option (List UInt8)}

theorem decided_snoc (past : List Consultation) (event : Consultation) :
    decided environment (past ++ [event]) =
      some ((decided environment past).getD (event.choice environment)) := by
  cases past <;> rfl

theorem decided_eq_none {past : List Consultation} : decided environment past = none ↔ past = [] := by
  cases past <;> simp [decided]

theorem lawful_append {past events more : List Consultation} :
    Lawful environment past (events ++ more) ↔
      Lawful environment past events ∧ Lawful environment (past ++ events) more := by
  induction events generalizing past with
  | nil => simp [Lawful]
  | cons event rest ih => simp [Lawful, ih, and_assoc]

theorem Lawful.due {past events : List Consultation} {settings : Settings}
    (lawful : Lawful environment past events) (before : decided environment past = some settings) :
    ∀ event ∈ events, event.Due environment (some settings) := by
  induction events generalizing past with
  | nil => simp
  | cons first rest ih =>
      have after : decided environment (past ++ [first]) = some settings := by
        rw [decided_snoc, before, Option.getD_some]
      exact List.forall_mem_cons.2 ⟨before ▸ lawful.1, ih lawful.2 after⟩

end Consultation

open Consultation (decided Lawful)

/-- The settings of the process are those that the consultations in `past` have decided. -/
def Process.Reflects (process : Process) (past : List Consultation) : Prop :=
  process.settings = decided process.environment past

structure Stands (past : List Consultation) (before : Process) (events : List Consultation)
    (after : Process) : Prop where
  environment : after.environment = before.environment
  lawful : Lawful before.environment past events
  reflects : after.Reflects (past ++ events)

namespace Stands

variable {past events more : List Consultation} {before middle after : Process}

theorem trans (first : Stands past before events middle)
    (second : Stands (past ++ events) middle more after) :
    Stands past before (events ++ more) after where
  environment := second.environment.trans first.environment
  lawful := Consultation.lawful_append.2 ⟨first.lawful, first.environment ▸ second.lawful⟩
  reflects := by
    rw [← List.append_assoc]
    exact second.reflects

theorem still (reflected : before.Reflects past) (settings : after.settings = before.settings)
    (environment : after.environment = before.environment) : Stands past before [] after where
  environment := environment
  lawful := trivial
  reflects := by
    rw [List.append_nil, Process.Reflects, settings, environment]
    exact reflected

theorem one {event : Consultation} (reflected : before.Reflects past)
    (due : event.Due before.environment before.settings)
    (same : after = { before with
      settings := some (before.settings.getD (event.choice before.environment)) }) :
    Stands past before [event] after := by
  subst same
  refine ⟨rfl, ⟨reflected ▸ due, trivial⟩, ?_⟩
  rw [Process.Reflects, Consultation.decided_snoc, ← reflected]

end Stands

/-- Running code leaves the settings that its consultations decide, and gets the answers that are
due. -/
theorem Consults.stands [Observer σ] {past events : List Consultation} {act : Act V σ α}
    {world : World V σ} (consults : Consults past act world events)
    (reflected : world.process.Reflects past) :
    Stands past world.process events (act world).2.process := by
  induction consults with
  | @aside _ past act world aloof =>
      exact .still reflected (aloof.kept world) (aloof.environment world)
  | install past settings world =>
      exact .one reflected (install_answer settings world) (install_process settings world)
  | current past world =>
      have asked := inForce_apply world
      exact .one reflected (congrArg Prod.fst asked) (congrArg (fun ended => ended.2.process) asked)
  | tally past world =>
      have asked := tallying_apply world
      exact .one reflected (congrArg Prod.fst asked) (congrArg (fun ended => ended.2.process) asked)
  | stray past key id world =>
      exact .one reflected (congrArg Prod.fst (tallying_apply world)) (noteStray_process key id world)
  | returned _ answer _ first rest =>
      rw [bind_ok answer]
      have done := first reflected
      exact done.trans (rest done.reflects)
  | failed _ left first =>
      rw [bind_error left]
      exact first reflected
  | @attempt _ _ _ act world _ body =>
      have same : (act.attempt world).2.process = (act world).2.process := by
        unfold Act.attempt
        rcases act world with ⟨(object | _) | value, later⟩ <;> rfl
      rw [same]
      exact body reflected
  | cleanup _ unwound _ body cleaning =>
      rw [onUnwinding_cleanup unwound]
      have done := body reflected
      exact done.trans (cleaning done.reflects)
  | passed _ intact body =>
      rw [onUnwinding_passed intact]
      exact body reflected
  | thread _ _ body => exact body reflected

end FaultRelay
