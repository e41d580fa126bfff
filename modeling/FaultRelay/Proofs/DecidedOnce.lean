import FaultRelay.Proofs.FrankDemise
import FaultRelay.Proofs.SplitChain

/-! The settings of a process are decided once, by whoever consults them first. The threads of an
assembly take turns, and each turn runs some code to its end; a block can be cut into several turns,
so that threads may alternate inside of it. All consultations of a run are kept in their order. The
first one decides, and no other is accepted or answered by other settings. -/
namespace FaultRelay

variable {V : Vocabulary} {σ τ α : Type}

structure Assembly (V : Vocabulary) (σ τ : Type) where
  process : Process
  threads : τ → Thread V
  host : σ

namespace Assembly

def world (here : Assembly V σ τ) (t : τ) : World V σ := ⟨here.process, here.threads t, here.host⟩

def after [DecidableEq τ] (here : Assembly V σ τ) (t : τ) (world : World V σ) : Assembly V σ τ :=
  ⟨world.process, Function.update here.threads t world.thread, world.host⟩

end Assembly

/-- Threads take turns after the consultations in `past`, and make those in `events`. -/
inductive Run [Observer σ] [DecidableEq τ] (past : List Consultation) (here : Assembly V σ τ) :
    List Consultation → Assembly V σ τ → Prop
  | still : Run past here [] here
  | turn {events more : List Consultation} {there : Assembly V σ τ} (run : Run past here events there)
      (t : τ) {α : Type} {act : Act V σ α}
      (consults : Consults (past ++ events) act (there.world t) more) :
      Run past here (events ++ more) (there.after t (act (there.world t)).2)

namespace Run

variable [Observer σ] [DecidableEq τ] {past events : List Consultation}
  {here there : Assembly V σ τ}

theorem stands (run : Run past here events there) (reflected : here.process.Reflects past) :
    Stands past here.process events there.process := by
  induction run with
  | still => exact .still reflected rfl rfl
  | turn _ t consults ih => exact ih.trans (consults.stands ih.reflects)

theorem justified (run : Run past here events there)
    (before : ∀ t, (here.threads t).Justified past) (t : τ) :
    (there.threads t).Justified (past ++ events) := by
  induction run generalizing t with
  | still =>
      rw [List.append_nil]
      exact before t
  | @turn events more there _ u _ act consults ih =>
      rw [← List.append_assoc]
      change (Function.update there.threads u (act (there.world u)).2.thread t).Justified _
      by_cases own : t = u
      · subst own
        rw [Function.update_self]
        exact consults.justified (ih t)
      · rw [Function.update_of_ne own]
        exact (ih t).append more

end Run

namespace Consultation

def accepted : Consultation → Bool
  | install _ answer => answer.isOk
  | current _ | tally _ _ | stray _ _ _ _ => false

def Agrees (settings : Settings) : Consultation → Prop
  | install _ _ => True
  | current answer => answer = settings
  | tally wanted answer | stray _ _ wanted answer => answer = (settings.diagnostics && 0 < wanted)

variable {environment : Option (List UInt8)} {settings : Settings} {event : Consultation}
  {events : List Consultation}

theorem Due.agrees (due : event.Due environment (some settings)) : event.Agrees settings := by
  cases event with
  | install => trivial
  | current | tally | stray => exact due

theorem Due.rejected (due : event.Due environment (some settings)) : event.accepted = false := by
  cases event with
  | install =>
      rw [show _ = _ from due]
      rfl
  | current | tally | stray => rfl

theorem Due.agrees_first (due : event.Due environment none) :
    event.Agrees (event.choice environment) := by
  cases event with
  | install => trivial
  | current | tally | stray => exact due

theorem Lawful.afterwards {rest : List Consultation}
    (lawful : Lawful environment [] (event :: rest)) :
    ∀ later ∈ rest, later.Due environment (some (event.choice environment)) :=
  Lawful.due lawful.2 rfl

theorem Lawful.agrees (lawful : Lawful environment [] events)
    (inForce : decided environment events = some settings) :
    ∀ event ∈ events, event.Agrees settings := by
  cases events with
  | nil => simp
  | cons first rest =>
      cases inForce
      exact List.forall_mem_cons.2
        ⟨Due.agrees_first lawful.1, fun later listed => (afterwards lawful later listed).agrees⟩

theorem Lawful.uncounted (lawful : Lawful environment [] events)
    (off : ((decided environment events).getD (.ofVariable environment)).diagnostics = false) :
    Uncounted events := by
  intro payload id wanted listed
  rcases inForce : decided environment events with _ | settings
  · rw [decided_eq_none.1 inForce] at listed
    cases listed
  · rw [inForce, Option.getD_some] at off
    have counted : true = (settings.diagnostics && 0 < wanted) := lawful.agrees inForce _ listed
    rw [off] at counted
    cases counted

end Consultation

namespace Scenario

end Scenario

end FaultRelay
