import CanonicalAccess.Proofs.Numbers
import Mathlib.Data.List.Forall2

/-!
# Laws of payloads

Payloads nest in lists, in tuples and in dictionaries. A payload that holds no others is compared
by what it is as an atom; the others are compared by what they hold (`Matching`). From that one
description, equality of payloads is shown to be an equivalence by induction over what a payload
holds.
-/

set_option autoImplicit false

namespace CanonicalAccess

/-! ### Lists related item by item -/

/-- A relation between lists may be weakened where the first elements are known to be of the first
list. -/
theorem forall₂_imp_of_mem {α β : Type} {R S : α → β → Prop} {xs : List α} {ys : List β}
    (h : ∀ x ∈ xs, ∀ {y}, R x y → S x y) (hxy : List.Forall₂ R xs ys) : List.Forall₂ S xs ys :=
  ((List.forall₂_and_left _ _).mpr ⟨h, hxy⟩).imp fun _ _ hx => hx.1 hx.2

/-- A relation between lists is transitive if it is for the elements of the first list. -/
theorem forall₂_trans_of_mem {α : Type} {R : α → α → Prop} {xs ys zs : List α}
    (h : ∀ x ∈ xs, ∀ {y z}, R x y → R y z → R x z) (hxy : List.Forall₂ R xs ys)
    (hyz : List.Forall₂ R ys zs) : List.Forall₂ R xs zs := by
  induction hxy generalizing zs with
  | nil => exact hyz
  | cons hx _ ih =>
    obtain ⟨z, zs', hy, hrest, rfl⟩ := List.forall₂_cons_left_iff.mp hyz
    rw [List.forall_mem_cons] at h
    exact .cons (h.1 hx hy) (ih h.2 hrest)

/-- Lists that are both related to a third one are related to each other. -/
theorem forall₂_of_common {α β : Type} {R : α → β → Prop} {S : α → α → Prop} {xs ys : List α}
    {zs : List β} (h : ∀ x ∈ xs, ∀ {y z}, R x z → R y z → S x y) (hx : List.Forall₂ R xs zs)
    (hy : List.Forall₂ R ys zs) : List.Forall₂ S xs ys := by
  induction hx generalizing ys with
  | nil =>
    cases hy
    exact .nil
  | cons hx _ ih =>
    obtain ⟨y, ys', hfirst, hrest, rfl⟩ := List.forall₂_cons_right_iff.mp hy
    rw [List.forall_mem_cons] at h
    exact .cons (h.1 hx hfirst) (ih h.2 hrest)

namespace Value

/-- Induction over payloads, items and entries being given member by member. -/
@[elab_as_elim]
theorem induction {motive : Value → Prop}
    (null : motive .null)
    (bool : ∀ b, motive (.bool b))
    (int : ∀ n, motive (.int n))
    (float : ∀ d, motive (.float d))
    (str : ∀ s, motive (.str s))
    (bytes : ∀ bs, motive (.bytes bs))
    (list : ∀ items, (∀ v ∈ items, motive v) → motive (.list items))
    (tuple : ∀ items, (∀ v ∈ items, motive v) → motive (.tuple items))
    (dict : ∀ entries, (∀ entry ∈ entries, motive entry.1 ∧ motive entry.2) →
      motive (.dict entries)) (v : Value) : motive v := by
  refine @Value.rec motive (fun vs => ∀ v ∈ vs, motive v)
    (fun entries => ∀ entry ∈ entries, motive entry.1 ∧ motive entry.2)
    (fun entry => motive entry.1 ∧ motive entry.2)
    null bool int float str bytes list tuple dict ?_ ?_ ?_ ?_ ?_ v
  · intro v hv
    exact absurd hv List.not_mem_nil
  · intro v vs hv hvs x hx
    rcases List.mem_cons.mp hx with rfl | hx
    · exact hv
    · exact hvs x hx
  · intro entry hentry
    exact absurd hentry List.not_mem_nil
  · intro entry entries hentry hentries x hx
    rcases List.mem_cons.mp hx with rfl | hx
    · exact hentry
    · exact hentries x hx
  · intro k v hk hv
    exact ⟨hk, hv⟩

/-- What a payload holds: the items of a list or of a tuple, the keys and values of a dictionary. -/
def parts : Value → List Value
  | list items | tuple items => items
  | dict entries => entries.flatMap fun entry => [entry.1, entry.2]
  | _ => []

/-- A condition holds of all parts of a dictionary if it holds of all keys and all values. -/
theorem forall_parts_dict {p : Value → Prop} {entries : List (Value × Value)} :
    (∀ u ∈ (dict entries).parts, p u) ↔ ∀ entry ∈ entries, p entry.1 ∧ p entry.2 := by
  rw [parts, List.forall_mem_flatMap]
  simp only [List.forall_mem_cons, List.not_mem_nil, false_implies, implies_true, and_true]

/-- Induction over what a payload holds. -/
@[elab_as_elim]
theorem parts_induction {motive : Value → Prop}
    (step : ∀ v, (∀ u ∈ v.parts, motive u) → motive v) (v : Value) : motive v := by
  induction v using Value.induction with
  | list items ih | tuple items ih => exact step _ ih
  | dict entries ih => exact step _ (forall_parts_dict.mpr ih)
  | _ => exact step _ fun u hu => absurd hu List.not_mem_nil

/-! ### How payloads are compared -/

/-- What a payload that holds no others is compared by. -/
inductive Atom where
  | null
  | number (d : ExactValue)
  | str (s : String)
  | bytes (bs : List UInt8)

def atom? : Value → Option Atom
  | null => some .null
  | bool b => some (.number (Quantity.whole (if b then 1 else 0)).exactValue)
  | int n => some (.number (Quantity.whole n).exactValue)
  | float d => some (.number (Quantity.real d).exactValue)
  | str s => some (.str s)
  | bytes bs => some (.bytes bs)
  | list _ | tuple _ | dict _ => none

/-- Equality of payloads, as a relation. -/
def Same (v w : Value) : Prop := v.same w = true

/-- Two entries have equal keys and equal values. -/
def SameEntry (x y : Value × Value) : Prop := x.1.Same y.1 ∧ x.2.Same y.2

/-- All ways in which two payloads can be equal. -/
inductive Matching : Value → Value → Prop where
  | atom {v w : Value} (atomic : v.atom?.isSome = true) (agree : v.atom? = w.atom?) : Matching v w
  | list {xs ys : List Value} (items : List.Forall₂ Same xs ys) : Matching (list xs) (list ys)
  | tuple {xs ys : List Value} (items : List.Forall₂ Same xs ys) : Matching (tuple xs) (tuple ys)
  | dict {xs ys : List (Value × Value)} (within : ∀ x ∈ xs, ∃ y ∈ ys, SameEntry x y)
      (covered : ∀ y ∈ ys, ∃ x ∈ xs, SameEntry x y) : Matching (dict xs) (dict ys)

/-- Payloads that hold no others are equal exactly if they are the same atom. -/
theorem sameScalar_iff {v w : Value} :
    sameScalar v w = true ↔ v.atom?.isSome = true ∧ v.atom? = w.atom? := by
  cases v <;> cases w <;> simp [sameScalar, quantity?, atom?, Quantity.same_iff]

/-- Lists of payloads are equal exactly if they are one by one. -/
theorem sameItems_iff {xs ys : List Value} :
    sameItems xs ys = true ↔ List.Forall₂ Same xs ys := by
  induction xs generalizing ys with
  | nil => cases ys <;> simp [sameItems]
  | cons x xs ih => cases ys <;> simp [sameItems, Same, ih]

/-- Entries are within others exactly if each is equal to one of those. -/
theorem entriesWithin_iff {xs ys : List (Value × Value)} :
    entriesWithin xs ys = true ↔ ∀ x ∈ xs, ∃ y ∈ ys, SameEntry x y := by
  induction xs with
  | nil => simp [entriesWithin]
  | cons x xs ih => simp [entriesWithin, ih, SameEntry, Same]

/-- An entry is there exactly if it is equal to one that is. -/
theorem hasEntry_iff {xs : List (Value × Value)} {y : Value × Value} :
    hasEntry xs y.1 y.2 = true ↔ ∃ x ∈ xs, SameEntry x y := by
  induction xs with
  | nil => simp [hasEntry]
  | cons x xs ih => simp [hasEntry, ih, SameEntry, Same]

/-- Payloads are equal exactly in the ways that match. -/
theorem same_iff {v w : Value} : v.Same w ↔ Matching v w := by
  constructor
  · intro h
    cases v with
    | list xs => cases w with
      | list ys => exact .list (sameItems_iff.mp h)
      | _ => cases h
    | tuple xs => cases w with
      | tuple ys => exact .tuple (sameItems_iff.mp h)
      | _ => cases h
    | dict xs => cases w with
      | dict ys =>
        unfold Same same at h
        rw [Bool.and_eq_true, entriesWithin_iff, List.all_eq_true] at h
        exact .dict h.1 fun y hy => hasEntry_iff.mp (h.2 y hy)
      | _ => cases h
    | _ =>
      obtain ⟨hatomic, hagree⟩ := sameScalar_iff.mp h
      exact .atom hatomic hagree
  · intro h
    cases h with
    | atom hatomic hagree =>
      have hscalar := sameScalar_iff.mpr ⟨hatomic, hagree⟩
      cases v <;> first | exact hscalar | cases hatomic
    | list items => exact sameItems_iff.mpr items
    | tuple items => exact sameItems_iff.mpr items
    | dict within covered =>
      unfold Same same
      rw [Bool.and_eq_true, entriesWithin_iff, List.all_eq_true]
      exact ⟨within, fun y hy => hasEntry_iff.mpr (covered y hy)⟩

/-! ### Equality is an equivalence -/

/-- Every payload equals itself. -/
theorem same_refl (v : Value) : v.same v = true := by
  induction v using parts_induction with
  | step v ih =>
    refine same_iff.mpr ?_
    cases v with
    | list items => exact .list (List.forall₂_same.mpr ih)
    | tuple items => exact .tuple (List.forall₂_same.mpr ih)
    | dict entries =>
      rw [forall_parts_dict] at ih
      exact .dict (fun x hx => ⟨x, hx, ih x hx⟩) fun y hy => ⟨y, hy, ih y hy⟩
    | _ => exact .atom rfl rfl

/-- Equality of payloads is symmetric. -/
theorem Same.symm {v w : Value} (h : v.Same w) : w.Same v := by
  induction v using parts_induction generalizing w with
  | step v ih =>
    refine same_iff.mpr ?_
    cases same_iff.mp h with
    | atom hatomic hagree => exact .atom (hagree ▸ hatomic) hagree.symm
    | list items => exact .list (forall₂_imp_of_mem ih items).flip
    | tuple items => exact .tuple (forall₂_imp_of_mem ih items).flip
    | dict within covered =>
      rw [forall_parts_dict] at ih
      refine .dict (fun y hy => ?_) fun x hx => ?_
      · obtain ⟨x, hx, hk, hv⟩ := covered y hy
        exact ⟨x, hx, (ih x hx).1 hk, (ih x hx).2 hv⟩
      · obtain ⟨y, hy, hk, hv⟩ := within x hx
        exact ⟨y, hy, (ih x hx).1 hk, (ih x hx).2 hv⟩

/-- Equality of payloads is transitive. -/
theorem Same.trans {u v w : Value} (huv : u.Same v) (hvw : v.Same w) : u.Same w := by
  induction u using parts_induction generalizing v w with
  | step u ih =>
    refine same_iff.mpr ?_
    cases same_iff.mp huv with
    | atom hatomic hagree =>
      cases same_iff.mp hvw with
      | atom _ hagree' => exact .atom hatomic (hagree.trans hagree')
      | _ => exact absurd (hagree ▸ hatomic) (by simp [atom?])
    | list items =>
      cases same_iff.mp hvw with
      | atom hatomic _ => cases hatomic
      | list items' => exact .list (forall₂_trans_of_mem ih items items')
    | tuple items =>
      cases same_iff.mp hvw with
      | atom hatomic _ => cases hatomic
      | tuple items' => exact .tuple (forall₂_trans_of_mem ih items items')
    | dict within covered =>
      rw [forall_parts_dict] at ih
      cases same_iff.mp hvw with
      | atom hatomic _ => cases hatomic
      | dict within' covered' =>
        refine .dict (fun x hx => ?_) fun z hz => ?_
        · obtain ⟨y, hy, hk, hv⟩ := within x hx
          obtain ⟨z, hz, hk', hv'⟩ := within' y hy
          exact ⟨z, hz, (ih x hx).1 hk hk', (ih x hx).2 hv hv'⟩
        · obtain ⟨y, hy, hk', hv'⟩ := covered' z hz
          obtain ⟨x, hx, hk, hv⟩ := covered y hy
          exact ⟨x, hx, (ih x hx).1 hk hk', (ih x hx).2 hv hv'⟩

/-- Equality of payloads is an equivalence. -/
theorem same_equivalence : Equivalence Same := ⟨same_refl, Same.symm, Same.trans⟩

/-! ### Dictionaries -/

instance sameSetoid : Setoid Value := ⟨Same, same_equivalence⟩

/-- Equality of entries is symmetric. -/
theorem SameEntry.symm {x y : Value × Value} (h : SameEntry x y) : SameEntry y x :=
  ⟨h.1.symm, h.2.symm⟩

/-- No two entries have equal keys. -/
def DistinctKeys (entries : List (Value × Value)) : Prop :=
  entries.Pairwise fun x y => ¬ x.1.Same y.1

/-- An entry up to equality of its key and of its value. -/
def entryClass (entry : Value × Value) : Quotient sameSetoid × Quotient sameSetoid :=
  (⟦entry.1⟧, ⟦entry.2⟧)

/-- Entries are of one class exactly if they are equal. -/
theorem entryClass_eq_iff {x y : Value × Value} : entryClass x = entryClass y ↔ SameEntry x y := by
  rw [entryClass, entryClass, Prod.mk.injEq, Quotient.eq, Quotient.eq]
  rfl

/-- Entries with distinct keys are of distinct classes. -/
theorem DistinctKeys.nodup {entries : List (Value × Value)} (h : DistinctKeys entries) :
    (entries.map entryClass).Nodup := by
  refine List.Pairwise.map _ (fun x y hkeys heq => ?_) h
  exact hkeys (entryClass_eq_iff.mp heq).1

/-- The classes of some entries are among those of others exactly if each entry is equal to one of
those. -/
theorem map_entryClass_subset_iff {xs ys : List (Value × Value)} :
    xs.map entryClass ⊆ ys.map entryClass ↔ ∀ x ∈ xs, ∃ y ∈ ys, SameEntry x y := by
  rw [List.subset_def, List.forall_mem_map]
  refine forall₂_congr fun x _ => ?_
  rw [List.mem_map]
  refine exists_congr fun y => and_congr_right fun _ => ?_
  rw [eq_comm, entryClass_eq_iff]

/-- Dictionaries with distinct keys are equal exactly if they have as many entries as each other and
each entry of the first is in the second. -/
theorem same_dict_iff {xs ys : List (Value × Value)} (hxs : DistinctKeys xs)
    (hys : DistinctKeys ys) : (dict xs).Same (dict ys) ↔
      xs.length = ys.length ∧ ∀ x ∈ xs, ∃ y ∈ ys, SameEntry x y := by
  rw [← map_entryClass_subset_iff]
  constructor
  · intro h
    cases same_iff.mp h with
    | atom hatomic _ => cases hatomic
    | dict within covered =>
      have hsub := map_entryClass_subset_iff.mpr within
      have hsub' : ys.map entryClass ⊆ xs.map entryClass :=
        map_entryClass_subset_iff.mpr fun y hy =>
          (covered y hy).imp fun x hx => ⟨hx.1, hx.2.symm⟩
      have hperm := (List.perm_ext_iff_of_nodup hxs.nodup hys.nodup).mpr
        fun entry => ⟨@hsub entry, @hsub' entry⟩
      exact ⟨by simpa using hperm.length_eq, hsub⟩
  · rintro ⟨hlen, hsub⟩
    have hperm := (List.subperm_of_subset hxs.nodup hsub).perm_of_length_le (by simp [hlen])
    refine same_iff.mpr (.dict (map_entryClass_subset_iff.mp hsub) fun y hy => ?_)
    obtain ⟨x, hx, hsame⟩ := map_entryClass_subset_iff.mp hperm.symm.subset y hy
    exact ⟨x, hx, hsame.symm⟩

/-- Keys stay distinct when an entry is inserted. -/
theorem DistinctKeys.insertEntry {entries : List (Value × Value)} (h : DistinctKeys entries)
    (key value : Value) : DistinctKeys (insertEntry entries key value) := by
  unfold Value.insertEntry
  split
  case isTrue =>
    refine List.Pairwise.map _ (fun x y hkeys => ?_) h
    dsimp only
    split <;> split <;> exact hkeys
  case isFalse hnew =>
    refine List.pairwise_append.mpr ⟨h, List.pairwise_singleton _ _, ?_⟩
    intro x hx y hy hsame
    cases List.mem_singleton.mp hy
    exact hnew (List.any_eq_true.mpr ⟨x, hx, hsame⟩)

/-- The keys of a dictionary that is made from entries are distinct. -/
theorem exists_dictOf (entries : List (Value × Value)) :
    ∃ entries', dictOf entries = dict entries' ∧ DistinctKeys entries' := by
  refine ⟨_, rfl, ?_⟩
  exact List.foldlRecOn entries _ List.Pairwise.nil
    fun _ distinct entry _ => distinct.insertEntry entry.1 entry.2

end Value

end CanonicalAccess
