import FaultRelay.Proofs.Echo
import FaultRelay.Proofs.Issuing

/-! What the threads of a process are told of identities. The threads take turns, call by call, in any
order, and the log says who was told what. An identity may be drawn long before it is handed out, and
other threads draw in the meantime; still each is handed out once, to the thread it was promised to,
and the identities of one thread ascend. The counter is unbounded; for a word of 32 bits the first
2 ^ 30 identities have room. -/
namespace FaultRelay

variable {V : Vocabulary} {τ : Type}

inductive Notice where
  | minted (id : FailureId)
  | promised (id : FailureId)
  | current (id? : Option FailureId)

namespace Notice

def minted? : Notice → Option FailureId
  | minted id => some id
  | promised _ | current _ => none

def ids : Notice → List FailureId
  | minted id | promised id => [id]
  | current id? => id?.toList

end Notice

/-- Who was told what, latest first. -/
abbrev Log (τ : Type) := List (τ × Notice)

namespace Log

def mints (log : Log τ) : List (τ × FailureId) :=
  log.filterMap fun entry => entry.2.minted?.map (entry.1, ·)

def minted (log : Log τ) : List FailureId := log.mints.map Prod.snd

theorem mem_mints {log : Log τ} {t : τ} {id : FailureId} :
    (t, id) ∈ log.mints ↔ (t, .minted id) ∈ log := by
  constructor
  · intro listed
    obtain ⟨⟨u, notice⟩, inside, found⟩ := List.mem_filterMap.1 listed
    cases notice <;> cases found
    exact inside
  · exact fun inside => List.mem_filterMap.2 ⟨_, inside, rfl⟩

theorem mem_minted {log : Log τ} {id : FailureId} :
    id ∈ log.minted ↔ ∃ t, (t, .minted id) ∈ log := by
  simp only [minted, List.mem_map, Prod.exists, exists_eq_right, mem_mints]

theorem minted_on_one {log : Log τ} (once : log.minted.Nodup) {t u : τ} {id : FailureId}
    (here : (t, .minted id) ∈ log) (there : (u, .minted id) ∈ log) : t = u :=
  congrArg Prod.fst (List.inj_on_of_nodup_map once (mem_mints.2 here) (mem_mints.2 there) rfl)

variable [DecidableEq τ]

def mintedBy (t : τ) (log : Log τ) : List FailureId :=
  log.filterMap fun entry => if entry.1 = t then entry.2.minted? else none

theorem mem_mintedBy {t : τ} {log : Log τ} {id : FailureId} :
    id ∈ log.mintedBy t ↔ (t, .minted id) ∈ log := by
  constructor
  · intro listed
    obtain ⟨⟨u, notice⟩, inside, found⟩ := List.mem_filterMap.1 listed
    by_cases own : u = t
    · subst own
      cases notice <;> simp [Notice.minted?] at found
      exact found ▸ inside
    · simp [own] at found
  · exact fun inside => List.mem_filterMap.2 ⟨_, inside, by simp [Notice.minted?]⟩

theorem mintedBy_own (t : τ) (notice : Notice) (log : Log τ) :
    mintedBy t ((t, notice) :: log) = notice.minted?.toList ++ mintedBy t log := by
  cases notice <;> simp [mintedBy, Notice.minted?]

theorem mintedBy_other {t u : τ} (differ : u ≠ t) (notice : Notice) (log : Log τ) :
    mintedBy t ((u, notice) :: log) = mintedBy t log := by
  simp [mintedBy, differ]

end Log

theorem FailureId.raw_lt_iff {a b : FailureId} : a.raw < b.raw ↔ a.number < b.number := by
  have tagged := a.tagged
  have tagged' := b.tagged
  simp only [FailureId.number]
  omega

section Calls

variable {crowd : Crowd V τ} {t : τ}

theorem upcoming_promised {id : FailureId} (promised : (crowd.threads t).reserved = some id) :
    (FailureId.mint (crowd.world t)).1 = id ∧ (FailureId.reserve (crowd.world t)).1 = id := by
  rw [FailureId.mint_apply, FailureId.reserve_apply, FailureId.upcoming_reserved promised]
  exact ⟨rfl, rfl⟩

theorem mint_thread (crowd : Crowd V τ) (t : τ) :
    (FailureId.mint (crowd.world t)).2.thread = { crowd.threads t with
      reserved := none, current := some (FailureId.mint (crowd.world t)).1 } := by
  rw [FailureId.mint_apply, FailureId.upcoming_thread]
  rfl

theorem reserve_thread (crowd : Crowd V τ) (t : τ) :
    (FailureId.reserve (crowd.world t)).2.thread = { crowd.threads t with
      reserved := some (FailureId.reserve (crowd.world t)).1 } := by
  rw [FailureId.reserve_apply, FailureId.upcoming_thread]
  rfl

theorem Crowd.after_still [DecidableEq τ] (crowd : Crowd V τ) (t : τ) :
    crowd.after t (crowd.world t) = crowd := by
  simp [after, world]

end Calls

section Turns

variable [DecidableEq τ]

/-- The threads of `start` call in turns and come to the crowd, and the log says what they were told.
Whatever else threads do does not concern identities. -/
inductive Logged (start : Crowd V τ) : Log τ → Crowd V τ → Prop
  | start : Logged start [] start
  | mint {log : Log τ} {crowd : Crowd V τ} (t : τ) (logged : Logged start log crowd) :
      Logged start ((t, .minted (FailureId.mint (crowd.world t)).1) :: log)
        (crowd.after t (FailureId.mint (crowd.world t)).2)
  | reserve {log : Log τ} {crowd : Crowd V τ} (t : τ) (logged : Logged start log crowd) :
      Logged start ((t, .promised (FailureId.reserve (crowd.world t)).1) :: log)
        (crowd.after t (FailureId.reserve (crowd.world t)).2)
  | current {log : Log τ} {crowd : Crowd V τ} (t : τ) (logged : Logged start log crowd) :
      Logged start ((t, .current (FailureId.current (crowd.world t)).1) :: log) crowd
  | aside {log : Log τ} {crowd crowd' : Crowd V τ}
      (drawn : crowd'.process.drawn = crowd.process.drawn)
      (same : ∀ t, (crowd'.threads t).current = (crowd.threads t).current ∧
        (crowd'.threads t).reserved = (crowd.threads t).reserved)
      (logged : Logged start log crowd) : Logged start log crowd'

def Crowd.Untouched (crowd : Crowd V τ) : Prop :=
  ∀ t, (crowd.threads t).current = none ∧ (crowd.threads t).reserved = none

namespace Logged

variable {start crowd : Crowd V τ} {log : Log τ}

section Promises

variable (logged : Logged start log crowd)
include logged

theorem standing {t : τ} {id : FailureId} (promised : (t, .promised id) ∈ log) :
    (crowd.threads t).reserved = some id ∨ (t, .minted id) ∈ log := by
  induction logged with
  | start => cases promised
  | @mint log crowd u logged ih =>
      have before : (t, .promised id) ∈ log := by simpa using promised
      rcases ih before with stands | kept
      · by_cases own : u = t
        · subst own
          rw [(upcoming_promised stands).1]
          exact .inr List.mem_cons_self
        · rw [Crowd.after_other _ (Ne.symm own)]
          exact .inl stands
      · exact .inr (List.mem_cons_of_mem _ kept)
  | @reserve log crowd u logged ih =>
      by_cases own : u = t
      · subst own
        rw [Crowd.after_own, reserve_thread]
        rcases List.mem_cons.1 promised with latest | before
        · cases latest
          exact .inl rfl
        · rcases ih before with stands | kept
          · exact .inl (congrArg some (upcoming_promised stands).2)
          · exact .inr (List.mem_cons_of_mem _ kept)
      · have before : (t, .promised id) ∈ log := (List.mem_cons.1 promised).resolve_left
          fun latest => own (congrArg Prod.fst latest).symm
        rw [Crowd.after_other _ (Ne.symm own)]
        exact (ih before).imp_right (List.mem_cons_of_mem _)
  | @current log crowd u logged ih =>
      have before : (t, .promised id) ∈ log := by simpa using promised
      exact (ih before).imp_right (List.mem_cons_of_mem _)
  | aside _ same _ ih => exact (ih promised).imp_left fun stands => (same t).2.trans stands

/-- As long as the thread does not mint, a promise stands. -/
theorem kept {t : τ} {id : FailureId} {before between : Log τ}
    (split : log = between ++ (t, .promised id) :: before)
    (since : ∀ entry ∈ between, entry.1 = t → entry.2.minted? = none) :
    (crowd.threads t).reserved = some id := by
  induction logged generalizing between with
  | start => simp at split
  | @mint log crowd u _ ih =>
      rcases between with _ | ⟨entry, between⟩
      · cases split
      · obtain ⟨rfl, rest⟩ := List.cons.inj split
        obtain ⟨last, since⟩ := List.forall_mem_cons.1 since
        have other : u ≠ t := fun own => by cases last own
        rw [Crowd.after_other _ (Ne.symm other)]
        exact ih rest since
  | @reserve log crowd u _ ih =>
      rcases between with _ | ⟨entry, between⟩
      · cases split
        rw [Crowd.after_own, reserve_thread]
      · obtain ⟨rfl, rest⟩ := List.cons.inj split
        have stands := ih rest (List.forall_mem_cons.1 since).2
        by_cases own : u = t
        · subst own
          rw [Crowd.after_own, reserve_thread]
          exact congrArg some (upcoming_promised stands).2
        · rw [Crowd.after_other _ (Ne.symm own), stands]
  | @current log crowd u _ ih =>
      rcases between with _ | ⟨entry, between⟩
      · cases split
      · exact ih (List.cons.inj split).2 (List.forall_mem_cons.1 since).2
  | aside _ same _ ih => exact (same _).2.trans (ih split since)

end Promises

variable (untouched : start.Untouched) (logged : Logged start log crowd)
include untouched logged

theorem issues : Issues log.minted crowd := by
  induction logged with
  | start => exact .start fun t => (untouched t).2
  | mint t _ ih => exact .mint t ih
  | reserve t _ ih => exact .reserve t ih
  | current t _ ih => exact ih
  | aside drawn same _ ih => exact .other drawn (fun t => .inl (same t).2) ih

theorem once : log.minted.Nodup := by
  induction logged with
  | start => exact .nil
  | mint t logged ih => exact List.nodup_cons.2 ⟨(logged.issues untouched).accounts.fresh t, ih⟩
  | reserve t _ ih => exact ih
  | current t _ ih => exact ih
  | aside _ _ _ ih => exact ih

theorem latest (t : τ) : (crowd.threads t).current = (log.mintedBy t).head? := by
  induction logged with
  | start => exact (untouched t).1
  | @mint log crowd u _ ih =>
      by_cases own : u = t
      · subst own
        rw [Crowd.after_own, mint_thread, Log.mintedBy_own]
        rfl
      · rw [Crowd.after_other _ (Ne.symm own), Log.mintedBy_other own, ih]
  | @reserve log crowd u _ ih =>
      by_cases own : u = t
      · subst own
        rw [Crowd.after_own, reserve_thread, Log.mintedBy_own]
        exact ih
      · rw [Crowd.after_other _ (Ne.symm own), Log.mintedBy_other own, ih]
  | @current log crowd u _ ih =>
      by_cases own : u = t
      · subst own
        rw [Log.mintedBy_own]
        exact ih
      · rw [Log.mintedBy_other own, ih]
  | aside _ same _ ih => exact (same t).1.trans ih

/-- What is promised to a thread is ahead of all that it minted. -/
theorem promise_ahead {t : τ} {id : FailureId} (promised : (crowd.threads t).reserved = some id) :
    ∀ old ∈ log.mintedBy t, old.number < id.number := by
  induction logged generalizing id with
  | start =>
      rw [(untouched t).2] at promised
      cases promised
  | @mint log crowd u _ ih =>
      by_cases own : u = t
      · subst own
        rw [Crowd.after_own, mint_thread] at promised
        cases promised
      · rw [Crowd.after_other _ (Ne.symm own)] at promised
        rw [Log.mintedBy_other own]
        exact ih promised
  | @reserve log crowd u logged ih =>
      by_cases own : u = t
      · subst own
        rw [Crowd.after_own, reserve_thread] at promised
        obtain rfl := Option.some.inj promised
        rw [Log.mintedBy_own]
        -- a fresh number is above all that were issued, a standing promise was ahead before
        rcases before : (crowd.threads u).reserved with _ | next
        · intro old listed
          have bound := (logged.issues untouched).accounts.issued old
            (Log.mem_minted.2 ⟨u, Log.mem_mintedBy.1 listed⟩)
          rw [FailureId.reserve_apply, FailureId.upcoming_unreserved before]
          change old.number < (FailureId.numbered _).number
          rw [FailureId.number_numbered]
          exact Nat.lt_succ_of_le bound
        · rw [(upcoming_promised before).2]
          exact ih before
      · rw [Crowd.after_other _ (Ne.symm own)] at promised
        rw [Log.mintedBy_other own]
        exact ih promised
  | @current log crowd u _ ih =>
      by_cases own : u = t
      · subst own
        rw [Log.mintedBy_own]
        exact ih promised
      · rw [Log.mintedBy_other own]
        exact ih promised
  | aside _ same _ ih => exact ih ((same t).2.symm.trans promised)

theorem ahead (t : τ) :
    ∀ old ∈ log.mintedBy t, old.number < (FailureId.mint (crowd.world t)).1.number := by
  rcases promised : (crowd.threads t).reserved with _ | next
  · intro old listed
    have bound := (logged.issues untouched).accounts.issued old
      (Log.mem_minted.2 ⟨t, Log.mem_mintedBy.1 listed⟩)
    rw [FailureId.mint_apply, FailureId.upcoming_unreserved promised]
    change old.number < (FailureId.numbered _).number
    rw [FailureId.number_numbered]
    exact Nat.lt_succ_of_le bound
  · rw [(upcoming_promised promised).1]
    exact promise_ahead untouched logged promised

theorem ascending (t : τ) :
    (log.mintedBy t).Pairwise fun later earlier => earlier.raw < later.raw := by
  induction logged with
  | start => exact .nil
  | @mint log crowd u logged ih =>
      by_cases own : u = t
      · subst own
        rw [Log.mintedBy_own]
        exact List.pairwise_cons.2 ⟨fun old listed =>
          FailureId.raw_lt_iff.2 (ahead untouched logged u old listed), ih⟩
      · rwa [Log.mintedBy_other own]
  | @reserve log crowd u _ ih | @current log crowd u _ ih =>
      by_cases own : u = t
      · subst own
        rwa [Log.mintedBy_own]
      · rwa [Log.mintedBy_other own]
  | aside _ _ _ ih => exact ih

theorem current_minted {t : τ} {id : FailureId} (told : (t, .current (some id)) ∈ log) :
    (t, .minted id) ∈ log := by
  induction logged with
  | start => cases told
  | @mint log _ u _ ih | @reserve log _ u _ ih =>
      have before : (t, .current (some id)) ∈ log := by simpa using told
      exact List.mem_cons_of_mem _ (ih before)
  | @current log crowd u logged ih =>
      refine List.mem_cons_of_mem _ ?_
      rcases List.mem_cons.1 told with latest | before
      · obtain ⟨rfl, latest⟩ := Prod.mk.inj latest
        have now : (crowd.threads t).current = some id := (Notice.current.inj latest).symm
        rw [logged.latest untouched] at now
        exact Log.mem_mintedBy.1 (List.mem_of_head? now)
      · exact ih before
  | aside _ _ _ ih => exact ih told

theorem drawn {t : τ} {notice : Notice} (told : (t, notice) ∈ log) :
    ∀ id ∈ notice.ids, id.number ≤ crowd.process.drawn := by
  have accounts := (logged.issues untouched).accounts
  have minted : ∀ id, (t, .minted id) ∈ log → id.number ≤ crowd.process.drawn := fun id told =>
    accounts.issued id (Log.mem_minted.2 ⟨t, told⟩)
  intro id named
  cases notice with
  | minted other =>
      obtain rfl := List.mem_singleton.1 named
      exact minted id told
  | promised other =>
      obtain rfl := List.mem_singleton.1 named
      exact (logged.standing told).elim (fun stands => (accounts.promised t id stands).1) (minted id)
  | current other =>
      obtain rfl : other = some id := Option.mem_toList.1 named
      exact minted id (current_minted untouched logged told)

end Logged

theorem Guard.target_apply {κ : Key V → Type} {σ : Type} (guard : Guard V κ) (world : World V σ) :
    guard.target world =
      if world.thread.current ≠ guard.baseline then (world.thread.current, world)
      else if 0 < world.thread.unwindings ∧ guard.wasUnwinding = false then
        (some (FailureId.reserve world).1, (FailureId.reserve world).2)
      else (none, world) := by
  have asked : unwinding world = (decide (0 < world.thread.unwindings), world) := rfl
  unfold target
  simp only [bind, StateT.bind, FailureId.current_apply]
  split
  · rfl
  · simp only [StateT.bind, asked]
    cases guard.wasUnwinding <;> by_cases unwinds : 0 < world.thread.unwindings <;>
      simp [unwinds] <;> rfl

/-- What a guard asks for is logged, and its target is what it was told. -/
theorem Guard.target_logged {start crowd : Crowd V τ} {log : Log τ} {κ : Key V → Type}
    (logged : Logged start log crowd) (guard : Guard V κ) (t : τ) :
    ∃ notices : List Notice,
      Logged start (notices.map (t, ·) ++ log) (crowd.after t (guard.target (crowd.world t)).2) ∧
      ∀ id, (guard.target (crowd.world t)).1 = some id →
        .current (some id) ∈ notices ∨ .promised id ∈ notices := by
  have asked := logged.current t
  rw [target_apply]
  split_ifs
  · refine ⟨[.current (crowd.threads t).current], ?_, fun id found => .inl ?_⟩
    · rw [crowd.after_still]
      exact asked
    · exact List.mem_singleton.2 (congrArg _ found.symm)
  · refine ⟨[.promised _, .current _], asked.reserve t, fun id found => .inr ?_⟩
    obtain rfl := Option.some.inj found
    exact List.mem_cons_self
  · refine ⟨[.current (crowd.threads t).current], ?_, nofun⟩
    rw [crowd.after_still]
    exact asked

/-- What the threads were told, once they have come to `crowd`. -/
structure Allocated (log : Log τ) (crowd : Crowd V τ) : Prop where
  once : log.minted.Nodup
  accepted : ∀ entry ∈ log, ∀ id ∈ entry.2.ids,
    id.raw % 4 = 1 ∧ FailureId.ofRaw? id.raw = some id
  fits : crowd.process.drawn < 2 ^ 30 → ∀ entry ∈ log, ∀ id ∈ entry.2.ids, id.raw < 2 ^ 32
  ascending : ∀ t, (log.mintedBy t).Pairwise fun later earlier => earlier.raw < later.raw
  /-- What was promised since the thread minted last comes up next, and is promised again. -/
  kept : ∀ t id before between, log = between ++ (t, .promised id) :: before →
    (∀ entry ∈ between, entry.1 = t → entry.2.minted? = none) →
    (FailureId.mint (crowd.world t)).1 = id ∧ (FailureId.reserve (crowd.world t)).1 = id
  own : ∀ t u id, (t, .promised id) ∈ log → u ≠ t →
    (u, .minted id) ∉ log ∧ (u, .promised id) ∉ log
  /-- A thread is promised nothing that was minted before. -/
  unissued : ∀ t, (FailureId.reserve (crowd.world t)).1 ∉ log.minted
  current : ∀ t, (FailureId.current (crowd.world t)).1 = (log.mintedBy t).head?

namespace Logged

variable {start crowd : Crowd V τ} {log : Log τ} (untouched : start.Untouched)
  (logged : Logged start log crowd)
include untouched logged

theorem promises_own {t u : τ} {id : FailureId} (promised : (t, .promised id) ∈ log)
    (differ : u ≠ t) : (u, .minted id) ∉ log ∧ (u, .promised id) ∉ log := by
  have accounts := (logged.issues untouched).accounts
  have once := logged.once untouched
  have unlisted : ∀ v, (crowd.threads v).reserved = some id → ∀ w, (w, .minted id) ∉ log :=
    fun v stands w told => (accounts.promised v id stands).2 (Log.mem_minted.2 ⟨w, told⟩)
  refine ⟨fun minted => ?_, fun other => ?_⟩
  · rcases logged.standing promised with stands | kept
    · exact unlisted t stands u minted
    · exact differ (Log.minted_on_one once minted kept)
  · rcases logged.standing promised with stands | kept <;>
      rcases logged.standing other with stands' | kept'
    · exact differ (accounts.once u t id stands' stands)
    · exact unlisted t stands u kept'
    · exact unlisted u stands' t kept
    · exact differ (Log.minted_on_one once kept' kept)

theorem allocated : Allocated log crowd where
  once := logged.once untouched
  accepted _ _ id _ := ⟨id.tagged, FailureId.ofRaw?_raw id⟩
  fits room entry told id named := by
    have bound := logged.drawn untouched told id named
    have tagged := id.tagged
    simp only [FailureId.number] at bound
    omega
  ascending := logged.ascending untouched
  kept _ _ _ _ split since := upcoming_promised (logged.kept split since)
  own _ _ _ promised differ := logged.promises_own untouched promised differ
  unissued := (logged.issues untouched).accounts.fresh
  current := logged.latest untouched

end Logged

/-- Whatever order the threads call in, and whether they call themselves or a guard or the reading
of a thrown object calls for them, identities are allocated once. -/
theorem identities_are_allocated_once {start crowd : Crowd V τ} {log : Log τ}
    (untouched : start.Untouched) (logged : Logged start log crowd) :
    Allocated log crowd ∧
      (∀ (κ : Key V → Type) (guard : Guard V κ) (t : τ), ∃ notices : List Notice,
        Logged start (notices.map (t, ·) ++ log) (crowd.after t (guard.target (crowd.world t)).2) ∧
        ∀ id, (guard.target (crowd.world t)).1 = some id →
          .current (some id) ∈ notices ∨ .promised id ∈ notices) ∧
      ∀ (object : Thrown V) (t : τ), match object.carried? with
        | some id => object.identify (crowd.world t) = (id, crowd.world t)
        | none => Logged start ((t, .minted (object.identify (crowd.world t)).1) :: log)
            (crowd.after t (object.identify (crowd.world t)).2) := by
  refine ⟨logged.allocated untouched, fun κ guard t => guard.target_logged logged t,
    fun object t => ?_⟩
  cases object with
  | unwound id | identity id => rfl
  | phrase | message | foreign => exact logged.mint t

end Turns

namespace Scenario

def pair : Crowd application Bool := ⟨⟨0, none, none⟩, fun _ => .fresh application⟩

/-- One thread is promised the first identity, the other mints the second and asks for what is
current, and only then is the promise kept. -/
def exchange : Log Bool :=
  [(true, .minted (.numbered 1)), (false, .current (some (.numbered 2))),
    (false, .minted (.numbered 2)), (true, .promised (.numbered 1))]

theorem exchange_is_allocated :
    pair.Untouched ∧ ∃ crowd : Crowd application Bool, Logged pair exchange crowd ∧
      Allocated exchange crowd ∧ crowd.process.drawn = 2 := by
  have untouched : pair.Untouched := fun _ => ⟨rfl, rfl⟩
  have promised := (Logged.start : Logged pair [] pair).reserve true
  have minted := promised.mint false
  have asked := minted.current false
  have logged := asked.mint true
  exact ⟨untouched, _, logged, (identities_are_allocated_once untouched logged).1, rfl⟩

end Scenario

end FaultRelay
