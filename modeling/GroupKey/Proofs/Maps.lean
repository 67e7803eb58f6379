import Mathlib.Algebra.Order.BigOperators.Group.List
import Mathlib.Algebra.Order.Ring.Nat
import Mathlib.Data.List.Perm.Basic
import Std.Data.ExtTreeMap

/-!
# Lookups in maps

What is found in a map after an entry was put in, what its values are and in which order, and how
sums over the values change with one entry.
-/

namespace GroupKey

variable {α β : Type} {cmp : α → α → Ordering} [Std.TransCmp cmp] {t : Std.ExtTreeMap α β cmp}

theorem values_eq_map_toList (t : Std.ExtTreeMap α β cmp) : t.values = t.toList.map (·.2) := by
  have hfold : t.values = t.foldr (fun _ b bs => b :: bs) [] := by
    obtain ⟨t⟩ := t
    induction t with
    | mk t => rfl
  rw [hfold, Std.ExtTreeMap.foldr_eq_foldr_toList]
  induction t.toList with
  | nil => rfl
  | cons x xs ih => simp [ih]

open Std.DTreeMap.Internal in
theorem entryAtIdx?_zero (t : Std.ExtTreeMap α β cmp) : t.entryAtIdx? 0 = t.toList.head? := by
  have htree (t : Impl α fun _ => β) (h : t.Balanced) :
      Impl.Const.entryAtIdx? t 0 = (Impl.Const.toList t).head? := by
    rw [Impl.Const.toList_eq_toListModel_map]
    induction h with
    | leaf => rfl
    | @inner size k v l r hl hr hroot hsize ihl ihr =>
      cases hl with
      | leaf => simp [Impl.Const.entryAtIdx?, Impl.size]
      | @inner size' k' v' l' r' hl' hr' hroot' hsize' =>
        have hlt : compare 0 size' = .lt := Nat.compare_eq_lt.2 (by omega)
        rw [Impl.Const.entryAtIdx?, Impl.size, hlt]
        simp only
        rw [ihl]
        simp
  obtain ⟨t⟩ := t
  induction t with
  | mk t =>
    let _ : Ord α := ⟨cmp⟩
    exact htree t.inner t.wf.balanced

/-- A list in order is what is below a key, what is of it, and what is above it. -/
theorem filter_append_filter_append_filter (a : α) {l : List (α × β)}
    (h : l.Pairwise fun x y => cmp x.1 y.1 = .lt) :
    l.filter (fun x => cmp x.1 a = .lt) ++ l.filter (fun x => cmp x.1 a = .eq) ++
      l.filter (fun x => cmp a x.1 = .lt) = l := by
  -- Where all is above the key, the first two parts are empty.
  have habove (l : List (α × β)) (hl : ∀ y ∈ l, cmp a y.1 = .lt) :
      l.filter (fun x => cmp x.1 a = .lt) = [] ∧ l.filter (fun x => cmp x.1 a = .eq) = [] ∧
        l.filter (fun x => cmp a x.1 = .lt) = l := by
    have hgt (y : α × β) (hy : y ∈ l) : cmp y.1 a = .gt := Std.OrientedCmp.gt_of_lt (hl y hy)
    refine ⟨List.filter_eq_nil_iff.2 fun y hy => ?_, List.filter_eq_nil_iff.2 fun y hy => ?_,
      List.filter_eq_self.2 fun y hy => by simp [hl y hy]⟩ <;> simp [hgt y hy]
  induction l with
  | nil => rfl
  | cons x l ih =>
    obtain ⟨hx, hl⟩ := List.pairwise_cons.1 h
    cases hcmp : cmp x.1 a with
    | lt =>
      have hgt : cmp a x.1 = .gt := Std.OrientedCmp.gt_of_lt hcmp
      simpa [List.filter_cons, hcmp, hgt] using ih hl
    | eq =>
      have heq : cmp a x.1 = .eq := Std.OrientedCmp.eq_symm hcmp
      obtain ⟨hlt, hnone, hall⟩ := habove l fun y hy => Std.TransCmp.lt_of_eq_of_lt heq (hx y hy)
      simp [hcmp, heq, hlt, hnone, hall]
    | gt =>
      have hlt : cmp a x.1 = .lt := Std.OrientedCmp.lt_of_gt hcmp
      obtain ⟨hnil, hnone, hall⟩ := habove l fun y hy => Std.TransCmp.lt_trans hlt (hx y hy)
      simp [hcmp, hlt, hnil, hnone, hall]

theorem sum_values_filter_le (f : β → Nat) (t : Std.ExtTreeMap α β cmp) (keep : α → β → Bool) :
    ((t.filter keep).values.map f).sum ≤ (t.values.map f).sum := by
  rw [values_eq_map_toList, values_eq_map_toList, Std.ExtTreeMap.toList_filter]
  exact ((List.filter_sublist.map _).map f).sum_le_sum fun _ _ => Nat.zero_le _

variable [Std.LawfulEqCmp cmp] {a k : α} {b v : β}

theorem mem_values : b ∈ t.values ↔ ∃ k : α, t[k]? = some b := by
  rw [values_eq_map_toList, List.mem_map]
  constructor
  · rintro ⟨⟨k, b⟩, h, rfl⟩
    exact ⟨k, Std.ExtTreeMap.mem_toList_iff_getElem?_eq_some.1 h⟩
  · rintro ⟨k, h⟩
    exact ⟨(k, b), Std.ExtTreeMap.mem_toList_iff_getElem?_eq_some.2 h, rfl⟩

theorem getElem?_insert_of_ne (h : k ≠ a) : (t.insert k v)[a]? = t[a]? := by
  rw [Std.ExtTreeMap.getElem?_insert, if_neg (by simpa using h)]

theorem getElem?_insert_cases (h : (t.insert k v)[a]? = some b) :
    (k = a ∧ v = b) ∨ (k ≠ a ∧ t[a]? = some b) := by
  by_cases heq : k = a
  · subst heq
    rw [Std.ExtTreeMap.getElem?_insert_self, Option.some.injEq] at h
    exact Or.inl ⟨rfl, h⟩
  · rw [getElem?_insert_of_ne heq] at h
    exact Or.inr ⟨heq, h⟩

theorem exists_getElem?_insert {v₀ : β} (h : t[k]? = some v₀) :
    (∃ b, (t.insert k v)[a]? = some b) ↔ ∃ b, t[a]? = some b := by
  by_cases heq : k = a
  · subst heq
    rw [Std.ExtTreeMap.getElem?_insert_self]
    exact iff_of_true ⟨_, rfl⟩ ⟨v₀, h⟩
  · rw [getElem?_insert_of_ne heq]

theorem getElem?_erase_of_ne (h : k ≠ a) : (t.erase k)[a]? = t[a]? := by
  rw [Std.ExtTreeMap.getElem?_erase, if_neg (by simpa using h)]

theorem erase_insert (t : Std.ExtTreeMap α β cmp) (k : α) (v : β) :
    (t.insert k v).erase k = t.erase k := by
  refine Std.ExtTreeMap.ext_getElem? fun a => ?_
  by_cases h : k = a
  · subst h
    rw [Std.ExtTreeMap.getElem?_erase_self, Std.ExtTreeMap.getElem?_erase_self]
  · rw [getElem?_erase_of_ne h, getElem?_erase_of_ne h, getElem?_insert_of_ne h]

theorem erase_alter (t : Std.ExtTreeMap α β cmp) (k : α) (f : Option β → Option β) :
    (t.alter k f).erase k = t.erase k := by
  refine Std.ExtTreeMap.ext_getElem? fun a => ?_
  by_cases h : k = a
  · subst h
    rw [Std.ExtTreeMap.getElem?_erase_self, Std.ExtTreeMap.getElem?_erase_self]
  · rw [getElem?_erase_of_ne h, getElem?_erase_of_ne h, Std.ExtTreeMap.getElem?_alter,
      if_neg (by simpa using h)]

theorem erase_of_getElem? (h : t[k]? = none) : t.erase k = t := by
  refine Std.ExtTreeMap.ext_getElem? fun a => ?_
  by_cases hk : k = a
  · subst hk
    rw [Std.ExtTreeMap.getElem?_erase_self, h]
  · rw [getElem?_erase_of_ne hk]

/-- The entries of a map are one of them and those of the rest. -/
theorem toList_perm (h : t[k]? = some v) : t.toList.Perm ((k, v) :: (t.erase k).toList) := by
  have hnodup (t : Std.ExtTreeMap α β cmp) : t.toList.Nodup := by
    refine t.distinct_keys_toList.imp ?_
    rintro x y hne rfl
    exact hne Std.ReflCmp.compare_self
  have hnotMem : (k, v) ∉ (t.erase k).toList := by
    rw [Std.ExtTreeMap.mem_toList_iff_getElem?_eq_some, Std.ExtTreeMap.getElem?_erase_self]
    simp
  refine (List.perm_ext_iff_of_nodup (hnodup t)
    (List.nodup_cons.2 ⟨hnotMem, hnodup _⟩)).2 fun ⟨a, b⟩ => ?_
  rw [List.mem_cons, Std.ExtTreeMap.mem_toList_iff_getElem?_eq_some,
    Std.ExtTreeMap.mem_toList_iff_getElem?_eq_some, Prod.mk.injEq]
  by_cases hk : k = a
  · subst hk
    rw [h, Std.ExtTreeMap.getElem?_erase_self]
    simp [eq_comm]
  · rw [getElem?_erase_of_ne hk]
    simp [Ne.symm hk]

theorem values_perm (h : t[k]? = some v) : t.values.Perm (v :: (t.erase k).values) := by
  rw [values_eq_map_toList, values_eq_map_toList]
  exact (toList_perm h).map _

theorem toList_insert_perm (h : t[k]? = none) (v : β) :
    (t.insert k v).toList.Perm ((k, v) :: t.toList) := by
  have hself : (t.insert k v)[k]? = some v := Std.ExtTreeMap.getElem?_insert_self
  have hperm := toList_perm hself
  rwa [erase_insert, erase_of_getElem? h] at hperm

/-! ## Values in order -/

theorem values_of_unique (h : ∀ k : α, k ≠ a → t[k]? = none) : t.values = t[a]?.toList := by
  have hempty : t.erase a = ∅ := by
    refine Std.ExtTreeMap.ext_getElem? fun k => ?_
    rw [Std.ExtTreeMap.getElem?_erase, Std.ExtTreeMap.getElem?_empty]
    split
    · rfl
    · next hne => exact h k fun heq => hne (by simp [heq])
  cases hv : t[a]? with
  | none =>
    rw [erase_of_getElem? hv] at hempty
    rw [hempty]
    rfl
  | some v =>
    have hperm := values_perm hv
    rw [hempty] at hperm
    exact List.perm_singleton.1 hperm

/-- **The values of a map** are those below a key, that of the key, and those above it. -/
theorem values_split (t : Std.ExtTreeMap α β cmp) (a : α) :
    t.values = (t.filter fun k _ => cmp k a = .lt).values ++ t[a]?.toList ++
      (t.filter fun k _ => cmp a k = .lt).values := by
  have hself : (t.filter fun k _ => cmp k a = .eq).values = t[a]?.toList := by
    have hfilter (k : α) : (t.filter fun k _ => cmp k a = .eq)[k]? =
        (t[k]?).filter fun _ => cmp k a = .eq := Std.ExtTreeMap.getElem?_filter'
    have hunique : ∀ k : α, k ≠ a → (t.filter fun k _ => cmp k a = .eq)[k]? = none := fun k hk => by
      simp [hfilter, hk]
    rw [values_of_unique hunique, hfilter]
    cases t[a]? <;> simp
  rw [← hself, values_eq_map_toList, values_eq_map_toList, values_eq_map_toList,
    values_eq_map_toList, Std.ExtTreeMap.toList_filter, Std.ExtTreeMap.toList_filter,
    Std.ExtTreeMap.toList_filter, ← List.map_append, ← List.map_append]
  exact congrArg _ (filter_append_filter_append_filter a Std.ExtTreeMap.ordered_keys_toList).symm

/-! ## Sums over values -/

variable (f : β → Nat)

theorem sum_values (t : Std.ExtTreeMap α β cmp) (k : α) :
    (t.values.map f).sum = (t[k]?.map f).getD 0 + ((t.erase k).values.map f).sum := by
  cases h : t[k]? with
  | none => rw [erase_of_getElem? h, Option.map_none, Option.getD_none, Nat.zero_add]
  | some v =>
    rw [((values_perm h).map f).sum_eq, List.map_cons, List.sum_cons, Option.map_some,
      Option.getD_some]

theorem sum_values_count (t : Std.ExtTreeMap α Nat cmp) (k : α) :
    (t.alter k fun count => some (count.getD 0 + 1)).values.sum = t.values.sum + 1 := by
  have hbefore := sum_values id t k
  have hafter := sum_values id (t.alter k fun count => some (count.getD 0 + 1)) k
  rw [Std.ExtTreeMap.getElem?_alter_self, erase_alter] at hafter
  simp only [List.map_id, Option.map_id, id, Option.map_some, Option.getD_some] at hbefore hafter
  omega

end GroupKey
