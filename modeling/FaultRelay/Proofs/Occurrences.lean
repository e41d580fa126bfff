import Mathlib.Data.List.Basic

/-! Lists of which only the first occurrence of each element counts. -/
namespace FaultRelay

section Once

variable {α : Type} [DecidableEq α]

theorem eraseDups_filter (keep : α → Bool) (list : List α) :
    (list.filter keep).eraseDups = list.eraseDups.filter keep := by
  induction size : list.length using Nat.strongRecOn generalizing list with
  | _ size ih =>
    subst size
    cases list with
    | nil => rfl
    | cons first rest =>
        have shorter : (rest.filter (!· == first)).length < (first :: rest).length :=
          Nat.lt_succ_of_le (List.length_filter_le _ _)
        have others := ih _ shorter _ rfl
        rw [List.eraseDups_cons, List.filter_cons, List.filter_cons]
        split
        · rw [List.eraseDups_cons, ← others, List.filter_comm]
        · rename_i dropped
          rw [← others, List.filter_filter]
          refine congrArg List.eraseDups (List.filter_congr fun element _ => ?_)
          by_cases same : element = first
          · subst same
            simpa using dropped
          · simp [same]

theorem nodup_eraseDups (list : List α) : list.eraseDups.Nodup := by
  induction size : list.length using Nat.strongRecOn generalizing list with
  | _ size ih =>
    subst size
    cases list with
    | nil => exact .nil
    | cons first rest =>
        rw [List.eraseDups_cons]
        refine List.nodup_cons.2 ⟨?_, ih _ (Nat.lt_succ_of_le (List.length_filter_le _ _)) _ rfl⟩
        simp

theorem eraseDups_of_nodup {list : List α} (once : list.Nodup) : list.eraseDups = list := by
  induction list with
  | nil => rfl
  | cons first rest ih =>
      obtain ⟨absent, once⟩ := List.nodup_cons.1 once
      have kept : rest.filter (!· == first) = rest := by
        rw [List.filter_eq_self]
        rintro element listed
        simp [ne_of_mem_of_not_mem listed absent]
      rw [List.eraseDups_cons, kept, ih once]

theorem eraseDups_append_eraseDups (first second : List α) :
    (first ++ second.eraseDups).eraseDups = (first ++ second).eraseDups := by
  have filtered : (second.eraseDups.removeAll first).eraseDups =
      (second.removeAll first).eraseDups := by
    rw [List.removeAll, List.removeAll, eraseDups_filter, eraseDups_filter,
      eraseDups_of_nodup (nodup_eraseDups second)]
  rw [List.eraseDups_append, List.eraseDups_append, filtered]

theorem eraseDups_append_cons_of_mem {first : List α} {element : α} (met : element ∈ first)
    (rest : List α) : (first ++ element :: rest).eraseDups = (first ++ rest).eraseDups := by
  rw [List.eraseDups_append, List.eraseDups_append, List.cons_removeAll, if_neg (by simp [met])]

theorem eraseDups_append_self (list : List α) : (list ++ list).eraseDups = list.eraseDups := by
  have nothing : list.removeAll list = [] := by simp [List.removeAll]
  rw [List.eraseDups_append, nothing, List.eraseDups_nil, List.append_nil]

end Once

end FaultRelay
