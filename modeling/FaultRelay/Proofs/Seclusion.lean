import FaultRelay.Proofs.Operation
import FaultRelay.Proofs.SplitChain

/-! Threads do not influence each other. Each thread of a company runs a program of its own, and the
threads take turns, operation by operation, in any order. All they share is the counter of
identities and the settings, and the settings are decided. A program names the identities it was
told of, in its values too, and no others; then what its thread is told, and what the thread holds,
depends on the order of the turns by a renaming of its identities alone. -/
namespace FaultRelay

variable {V : Vocabulary} {σ τ : Type}

/-- What a thread does next, given what it was told. -/
inductive Strand (V : Vocabulary) (σ : Type) where
  | done
  | step (operation : Operation V σ) (next : Reply V σ → Strand V σ)

section Strands

variable [Naming V] [Host V σ] (peers : Peers σ)

inductive Strand.Like : Renaming → Strand V σ → Strand V σ → Prop
  | done {names : Renaming} : Like names .done .done
  | step {names : Renaming} {operation operation' : Operation V σ}
      {next next' : Reply V σ → Strand V σ}
      (alike : Operation.Like peers names operation operation')
      (goesOn : ∀ later, names ≤ later → ∀ reply reply', Reply.Like peers later reply reply' →
        Like later (next reply) (next' reply')) :
      Like names (.step operation next) (.step operation' next')

/-- The program names only identities that it was told of: told others instead, it would name those,
and do the same otherwise. -/
def Strand.NamesOwn (strand : Strand V σ) : Prop := Strand.Like peers .none strand strand

end Strands

structure Party (V : Vocabulary) (σ : Type) where
  thread : Thread V
  host : σ
  strand : Strand V σ
  told : List (Reply V σ)
  drawn : List FailureId

/-- The thread in the world it has come to, where its program was told `reply`; when the operation
began, `drawn` identities had been drawn by any thread. -/
def Party.proceed (party : Party V σ) (drawn : Nat) (next : Reply V σ → Strand V σ)
    (reply : Reply V σ) (world : World V σ) : Party V σ where
  thread := world.thread
  host := world.host
  strand := next reply
  told := reply :: party.told
  drawn := FailureId.following drawn (world.process.drawn - drawn) ++ party.drawn

structure Company (V : Vocabulary) (σ τ : Type) where
  process : Process
  parties : τ → Party V σ

namespace Company

def opening (process : Process) (host : τ → σ) (strand : τ → Strand V σ) : Company V σ τ :=
  ⟨process, fun t => ⟨.fresh V, host t, strand t, [], []⟩⟩

def world (company : Company V σ τ) (t : τ) : World V σ :=
  ⟨company.process, (company.parties t).thread, (company.parties t).host⟩

section Turns

variable [DecidableEq τ] [Host V σ]

def turn (company : Company V σ τ) (t : τ) : Company V σ τ :=
  match (company.parties t).strand with
  | .done => company
  | .step operation next =>
      let (reply, world) := operation.perform (company.world t)
      ⟨world.process, Function.update company.parties t
        ((company.parties t).proceed company.process.drawn next reply world)⟩

def after (company : Company V σ τ) (order : List τ) : Company V σ τ := order.foldl turn company

end Turns

/-- What thread `t` was told and holds in two companies differs by the renaming of what it drew. -/
structure Alike [Naming V] [Host V σ] (peers : Peers σ) (t : τ) (names : Renaming)
    (company company' : Company V σ τ) : Prop where
  worlds : World.Like peers names (company.world t) (company'.world t)
  drawn : names.pairs = (company.parties t).drawn.zip (company'.parties t).drawn
  evenly : (company.parties t).drawn.length = (company'.parties t).drawn.length
  told : (Likeness.reply peers).listed.At names (company.parties t).told (company'.parties t).told
  strand : Strand.Like peers names (company.parties t).strand (company'.parties t).strand

/-- The identities that thread `t` drew are those that a counter of 32 bits gave. -/
def Counted (t : τ) (company : Company V σ τ) : Prop :=
  ∀ id ∈ (company.parties t).drawn, id.raw = (FailureId.counted id.number).toNat

structure Leaves (t : τ) (before after : Company V σ τ) : Prop where
  party : after.parties t = before.parties t
  settings : after.process.settings = before.process.settings
  drawn : before.process.drawn ≤ after.process.drawn

def Sound [Naming V] [Host V σ] (peers : Peers σ) (company : Company V σ τ) : Prop :=
  ∀ t, ∃ names, Alike peers t names company company

section Drawing

variable [Naming V] [Host V σ] {peers : Peers σ} {names : Renaming} {t : τ}
  {company company' : Company V σ τ}

theorem Alike.counted (alike : Alike peers t names company company')
    (few : company.process.drawn < 2 ^ 30) : Counted t company := by
  have paired : names.pairs.map Prod.fst = (company.parties t).drawn := by
    rw [alike.drawn, List.map_fst_zip alike.evenly.le]
  intro id drawn
  rw [← paired] at drawn
  obtain ⟨pair, listed, rfl⟩ := List.mem_map.1 drawn
  have early : pair.1.number < 2 ^ 30 := (alike.worlds.drawn pair listed).1.trans_lt few
  exact pair.1.raw_eq_counted (show 4 * pair.1.number < 4294967296 by omega)

end Drawing

section Asides

variable {t : τ} {company company' later later' : Company V σ τ}

namespace Leaves

theorem refl (t : τ) (company : Company V σ τ) : Leaves t company company :=
  ⟨rfl, rfl, le_refl _⟩

theorem trans (first : Leaves t company company') (second : Leaves t company' later) :
    Leaves t company later :=
  ⟨second.party.trans first.party, second.settings.trans first.settings,
    first.drawn.trans second.drawn⟩

end Leaves

/-- The turns of others change nothing. -/
theorem Alike.aside [Naming V] [Host V σ] {peers : Peers σ} {names : Renaming}
    (alike : Alike peers t names company company') (left : Leaves t company later)
    (right : Leaves t company' later') : Alike peers t names later later' := by
  obtain ⟨settings, installed, installed'⟩ := alike.worlds.installed
  have worlds : World.Like peers names (later.world t) (later'.world t) :=
    { installed := ⟨settings, left.settings.trans installed, right.settings.trans installed'⟩
      drawn := fun pair listed => ⟨(alike.worlds.drawn pair listed).1.trans left.drawn,
        (alike.worlds.drawn pair listed).2.trans right.drawn⟩
      thread := by
        simp only [world, left.party, right.party]
        exact alike.worlds.thread
      host := by
        simp only [world, left.party, right.party]
        exact alike.worlds.host }
  refine ⟨worlds, ?_, ?_, ?_, ?_⟩ <;> rw [left.party, right.party]
  exacts [alike.drawn, alike.evenly, alike.told, alike.strand]

end Asides

section Turns

variable [DecidableEq τ] [Host V σ] {peers : Peers σ} {names : Renaming} {t u : τ}
  {company company' : Company V σ τ}

theorem turn_done (ended : (company.parties t).strand = .done) : company.turn t = company := by
  unfold turn
  rw [ended]

theorem turn_step {operation : Operation V σ} {next : Reply V σ → Strand V σ}
    (goesOn : (company.parties t).strand = .step operation next) :
    company.turn t =
      ⟨(operation.perform (company.world t)).2.process, Function.update company.parties t
        ((company.parties t).proceed company.process.drawn next
          (operation.perform (company.world t)).1 (operation.perform (company.world t)).2)⟩ := by
  unfold turn
  rw [goesOn]
  rfl

theorem turn_other (differ : t ≠ u) : (company.turn u).parties t = company.parties t := by
  rcases next : (company.parties u).strand with _ | ⟨operation, next⟩
  · rw [turn_done next]
  · rw [turn_step next]
    exact Function.update_of_ne differ _ _

variable [Naming V]

namespace Alike

theorem turn (impartial : peers.Impartial (V := V)) (alike : Alike peers t names company company') :
    ∃ later, names.Draws later company.process company'.process (company.turn t).process
        (company'.turn t).process ∧
      Alike peers t later (company.turn t) (company'.turn t) := by
  have goesOn := alike.strand
  rcases next : (company.parties t).strand with _ | ⟨operation, rest⟩ <;>
    rcases next' : (company'.parties t).strand with _ | ⟨operation', rest'⟩ <;>
    rw [next, next'] at goesOn <;> cases goesOn
  · rw [turn_done next, turn_done next']
    exact ⟨names, .refl _ _ _, alike⟩
  · rename_i operations goesOn
    obtain ⟨later, draws, replies, worlds⟩ := Follows.perform impartial operations names (le_refl _)
      _ _ alike.worlds
    rw [turn_step next, turn_step next']
    refine ⟨later, draws, ?_⟩
    obtain ⟨count, left, right, pairs⟩ := draws.drawn
    change _ = company.process.drawn + count at left
    change _ = company'.process.drawn + count at right
    constructor
    · simp only [world, Function.update_self]
      exact worlds
    · simp only [Function.update_self, Party.proceed, left, right, Nat.add_sub_cancel_left]
      rw [pairs, alike.drawn, List.zip_append]
      · rfl
      · rw [FailureId.length_following, FailureId.length_following]
    · simp only [Function.update_self, Party.proceed, left, right, Nat.add_sub_cancel_left,
        List.length_append, FailureId.length_following, alike.evenly]
    · simp only [Function.update_self]
      exact .cons replies ((Likeness.reply peers).listed.mono draws.le alike.told)
    · simp only [Function.update_self]
      exact goesOn later draws.le _ _ replies

end Alike

section Orders

variable (impartial : peers.Impartial (V := V))
include impartial

namespace Sound

theorem leaves (sound : Sound peers company) (differ : t ≠ u) :
    Leaves t company (company.turn u) := by
  obtain ⟨names, alike⟩ := sound u
  obtain ⟨later, draws, _⟩ := alike.turn impartial
  obtain ⟨count, left, _, _⟩ := draws.drawn
  exact ⟨turn_other differ, draws.settings.1, by omega⟩

theorem turn (sound : Sound peers company) (u : τ) : Sound peers (company.turn u) := by
  intro t
  obtain ⟨names, alike⟩ := sound t
  by_cases own : t = u
  · subst own
    obtain ⟨later, _, alike⟩ := alike.turn impartial
    exact ⟨later, alike⟩
  · have left := sound.leaves impartial own
    exact ⟨names, alike.aside left left⟩

theorem after (sound : Sound peers company) (order : List τ) :
    Sound peers (company.after order) := by
  induction order generalizing company with
  | nil => exact sound
  | cons u rest ih => exact ih (sound.turn impartial u)

theorem leavesAfter (sound : Sound peers company) {order : List τ} (absent : t ∉ order) :
    Leaves t company (company.after order) := by
  induction order generalizing company with
  | nil => exact .refl t company
  | cons u rest ih =>
      obtain ⟨other, others⟩ := not_or.1 (List.mem_cons.not.1 absent)
      exact (sound.leaves impartial other).trans (ih (sound.turn impartial u) others)

end Sound

/-- Two companies in which the thread has equally many turns, whatever others do in between. -/
theorem Alike.after {order order' : List τ} (alike : Alike peers t names company company')
    (sound : Sound peers company) (sound' : Sound peers company')
    (turns : order.count t = order'.count t) :
    ∃ later, Alike peers t later (company.after order) (company'.after order') := by
  induction order generalizing names company company' order' with
  -- only others have turns left there
  | nil =>
      have absent : t ∉ order' := List.count_eq_zero.1 (turns.symm.trans List.count_nil)
      exact ⟨names, alike.aside (.refl t company) (sound'.leavesAfter impartial absent)⟩
  | cons u rest ih =>
      by_cases own : u = t
      · subst own
        -- the turns of others before the next one of the thread are skipped in the second company
        have present : u ∈ order' := by
          rw [← List.count_pos_iff, ← turns, List.count_cons_self]
          exact Nat.succ_pos _
        obtain ⟨before, others, rfl, absent⟩ := List.eq_append_cons_of_mem present
        have reached := alike.aside (.refl u company) (sound'.leavesAfter impartial absent)
        obtain ⟨later, _, moved⟩ := reached.turn impartial
        have sound' := (sound'.after impartial before).turn impartial u
        have left : rest.count u = others.count u := by
          rw [List.count_cons_self, List.count_append, List.count_cons_self,
            List.count_eq_zero.2 absent] at turns
          omega
        obtain ⟨last, ended⟩ := ih moved (sound.turn impartial u) sound' left
        refine ⟨last, ?_⟩
        have split : company'.after (before ++ u :: others) =
            ((company'.after before).turn u).after others := List.foldl_append
        rw [split]
        exact ended
      · have moved := alike.aside (sound.leaves impartial (Ne.symm own)) (.refl t company')
        exact ih moved (sound.turn impartial u) sound' (by rwa [List.count_cons_of_ne own] at turns)

end Orders

end Turns

theorem opening_sound [Naming V] [Host V σ] {peers : Peers σ} {process : Process} {settings : Settings}
    (installed : process.settings = some settings) (host : τ → σ) {strand : τ → Strand V σ}
    (own : ∀ t, (strand t).NamesOwn peers) : Sound peers (opening process host strand) := by
  intro t
  have worlds : World.Like peers .none ((opening process host strand).world t)
      ((opening process host strand).world t) :=
    ⟨⟨settings, installed, installed⟩, nofun, .fresh .none, peers.same.refl _⟩
  exact ⟨.none, worlds, rfl, rfl, .nil, own t⟩

end Company

/-- Whatever the order of the turns, a thread is told the same and holds the same, up to a renaming
of the identities it drew; and so if it runs alone. The renaming is one to one and keeps the order, so
the orders are taken to draw fewer identities than there are before the counter wraps around. -/
theorem threads_do_not_influence_each_other [DecidableEq τ] [Naming V] [Host V σ] {peers : Peers σ}
    (impartial : peers.Impartial (V := V)) {process : Process} {settings : Settings}
    (installed : process.settings = some settings) (host : τ → σ) {strand : τ → Strand V σ}
    (own : ∀ t, (strand t).NamesOwn peers) {order order' : List τ} (same : order.Perm order')
    (t : τ) (few : ∀ turns ∈ [order, order', List.replicate (order.count t) t],
      ((Company.opening process host strand).after turns).process.drawn < 2 ^ 30) :
    (∃ names, Company.Alike peers t names ((Company.opening process host strand).after order)
      ((Company.opening process host strand).after order')) ∧
    (∃ names, Company.Alike peers t names ((Company.opening process host strand).after order)
      ((Company.opening process host strand).after (List.replicate (order.count t) t))) ∧
    ∀ turns ∈ [order, order', List.replicate (order.count t) t],
      ((Company.opening process host strand).after turns).Counted t := by
  have sound := Company.opening_sound installed host own
  obtain ⟨names, alike⟩ := sound t
  have alone : order.count t = (List.replicate (order.count t) t).count t :=
    List.count_replicate_self.symm
  obtain ⟨ordered, both⟩ := alike.after impartial sound sound (same.count_eq t)
  obtain ⟨single, apart⟩ := alike.after impartial sound sound alone
  refine ⟨⟨ordered, both⟩, ⟨single, apart⟩, fun turns listed => ?_⟩
  obtain ⟨names, alike⟩ := sound.after impartial turns t
  exact alike.counted (few turns listed)

namespace Scenario

/-- A code is a number, or that of a failure. -/
def codes : Likeness Int where
  At names code code' := code = code' ∨
    ∃ tag tag', Likeness.tag.At names tag tag' ∧ code = tag ∧ code' = tag'
  mono grown alike := alike.imp_right fun ⟨tag, tag', tagged, codes⟩ =>
    ⟨tag, tag', Likeness.tag.mono grown tagged, codes⟩

instance : Naming application where
  value
    | .code => codes
    | _ => .same
  object := .same
  product := .same
  typed same := congrArg _ same

theorem diary_impartial : (Discreet.peers application Diary).Impartial where
  destroy _ _ _ _ _ := .still rfl
  declared _ _ _ := .still rfl
  available _ _ _ _ _ := .still rfl
  produced _ _ := .still .none

/-- A program that records the number of a new failure as its code, asks for it back, and raises the
failure. -/
def crier : Strand application Diary :=
  .step (.enter outerScope) fun _ => .step .mint fun
    | .identity id => .step (.record (Topic.ofKind .code) (id.raw : Int) id) fun _ =>
        .step (.takeFor (Topic.ofKind .code) id) fun _ => .step (.raise id) fun _ => .done
    | _ => .done

def hoarder : Strand application Diary :=
  .step .reserve fun _ => .step .mint fun _ => .step .current fun _ => .done

theorem crier_names_own : crier.NamesOwn (Discreet.peers application Diary) := by
  refine .step (.enter _) fun _ _ _ _ _ => ?_
  refine .step .mint fun now _ reply reply' alike => ?_
  cases alike with
  | identity linked =>
      have numbers : (Likeness.value (Topic.ofKind .code)).At now _ _ :=
        .inr ⟨_, _, Likeness.tag_of_linked linked, rfl, rfl⟩
      refine .step (.record _ numbers linked) fun middle grown _ _ _ => ?_
      refine .step (.takeFor _ (grown _ linked)) fun later further _ _ _ => ?_
      exact .step (.raise (further _ (grown _ linked))) fun _ _ _ _ _ => .done
  | _ => exact .done

theorem hoarder_names_own : hoarder.NamesOwn (Discreet.peers application Diary) :=
  .step .reserve fun _ _ _ _ _ => .step .mint fun _ _ _ _ _ => .step .current fun _ _ _ _ _ => .done

def duet : Company application Diary Bool :=
  .opening ⟨0, some .default, none⟩ (fun _ => ⟨[]⟩) fun t => if t then crier else hoarder

def inTurn : List Bool := [true, true, true, true, true, false, false, false]

/-- The hoarder is promised an identity before the crier gets one. -/
def mingled : List Bool := [false, true, true, false, true, true, false, true]

def codeOf? : Reply application Diary → Option Int
  | .value (.app .code) value => value
  | _ => none

/-- The crier draws another identity, and gets its number back in either order. -/
theorem duet_is_told_alike :
    inTurn.Perm mingled ∧
      (∀ t, ∃ names, Company.Alike (Discreet.peers application Diary) t names
        (duet.after inTurn) (duet.after mingled)) ∧
      ((duet.after inTurn).parties true).drawn = [.numbered 1] ∧
      ((duet.after mingled).parties true).drawn = [.numbered 2] ∧
      ((duet.after inTurn).parties true).told.filterMap codeOf? = [5] ∧
      ((duet.after mingled).parties true).told.filterMap codeOf? = [9] := by
  have own : ∀ t : Bool, (if t then crier else hoarder).NamesOwn
      (Discreet.peers application Diary) := by
    rintro (_ | _)
    exacts [hoarder_names_own, crier_names_own]
  have same : inTurn.Perm mingled := by decide
  have few : ∀ t, ∀ turns ∈ [inTurn, mingled, List.replicate (inTurn.count t) t],
      (duet.after turns).process.drawn < 2 ^ 30 := by decide +kernel
  refine ⟨same, fun t => ?_, ?_, ?_, ?_, ?_⟩
  · exact (threads_do_not_influence_each_other diary_impartial rfl _ own same t (few t)).1
  · decide +kernel
  · decide +kernel
  · decide +kernel
  · decide +kernel

end Scenario

end FaultRelay
