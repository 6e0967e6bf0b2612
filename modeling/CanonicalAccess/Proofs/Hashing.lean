import CanonicalAccess.Expr.Hash
import CanonicalAccess.Proofs.Comparison

/-!
# Hashes and equality

Whatever the hasher, equal payloads hash alike or have both no hash, and a node's hash is settled by
its frame, by the hash of its payload and by those of its parts. So expressions that are equal as
far as hashing can see hash alike, and hashing sees nothing else: a hasher that keeps everything
apart tells all others from each other (`hashEqual_iff_forall_hash`).
-/

set_option autoImplicit false

namespace CanonicalAccess

/-- What a hash is made of, if nothing is lost on the way. -/
inductive Imprint where
  | nothing
  | number (d : ExactValue)
  | text (s : String)
  | bytes (bs : List UInt8)
  | method (m : Method)
  | property (p : Property)
  | combine (imprints : List Imprint)

/-- The hasher that keeps everything apart but equal numbers. -/
def Hasher.imprint : Hasher Imprint where
  nothing := .nothing
  number x := .number x.exactValue
  text := .text
  bytes := .bytes
  method := .method
  property := .property
  combine := .combine
  number_same x y h := by rw [(Value.Quantity.same_iff x y).mp h]

variable {H : Type} (hasher : Hasher H)

namespace Value

/-- Payloads that hash alike one by one do so as a list. -/
theorem hashes?_congr {vs ws : List Value}
    (h : List.Forall₂ (fun v w => v.hash? hasher = w.hash? hasher) vs ws) :
    hashes? hasher vs = hashes? hasher ws := by
  induction h with
  | nil => rfl
  | cons hv _ ih => rw [hashes?, hashes?, hv, ih]

/-- The hash of an atom depends on nothing but what the atom is compared by. -/
theorem hash?_eq_of_atom? {v w : Value} (hatomic : v.atom?.isSome = true)
    (hagree : v.atom? = w.atom?) : v.hash? hasher = w.hash? hasher := by
  have hnumber : ∀ x y : Quantity, x.exactValue = y.exactValue →
      hasher.number x = hasher.number y := fun x y h =>
    hasher.number_same x y ((Quantity.same_iff x y).mpr h)
  cases v <;> cases w <;> simp_all [atom?, hash?] <;> exact hnumber _ _ hagree

/-- Payloads that are the same hash alike. -/
theorem Same.hash?_eq {v w : Value} (h : v.Same w) : v.hash? hasher = w.hash? hasher := by
  induction v using parts_induction generalizing w with
  | step v ih =>
    cases same_iff.mp h with
    | atom hatomic hagree => exact hash?_eq_of_atom? hasher hatomic hagree
    | list _ | dict _ _ => rfl
    | tuple items =>
      have hitems := hashes?_congr hasher (forall₂_imp_of_mem ih items)
      exact congrArg (Option.map hasher.combine) hitems

/-- A payload has a hash exactly if it can be hashed. -/
theorem isSome_hash? (v : Value) : (v.hash? hasher).isSome = v.hashable := by
  induction v using Value.induction with
  | tuple items ih =>
    rw [hash?, hashable, Option.isSome_map]
    induction items with
    | nil => rfl
    | cons v vs ihvs =>
      rw [List.forall_mem_cons] at ih
      rw [hashes?, allHashable, ← ih.1, ← ihvs ih.2]
      cases hash? hasher v <;> cases hashes? hasher vs <;> rfl
  | _ => rfl

/-- A payload has none exactly if it cannot. -/
theorem hash?_eq_none_iff {v : Value} : v.hash? hasher = none ↔ v.hashable = false := by
  rw [← isSome_hash? hasher, Option.isSome_eq_false_iff, Option.isNone_iff_eq_none]

/-- The hashes of some payloads are those of each of them. -/
theorem forall₂_of_hashes? {vs : List Value} {xs : List H} (h : hashes? hasher vs = some xs) :
    List.Forall₂ (fun v x => v.hash? hasher = some x) vs xs := by
  induction vs generalizing xs with
  | nil =>
    cases h
    exact .nil
  | cons v vs ih =>
    rw [hashes?] at h
    split at h
    case h_1 x ys hx hys =>
      cases h
      exact .cons hx (ih hys)
    case h_2 => cases h

def Atom.imprint : Atom → Imprint
  | null => .nothing
  | number d => .number d
  | str s => .text s
  | bytes bs => .bytes bs

/-- An imprint is that of an atom or of a tuple. -/
theorem imprint_cases {v : Value} {x : Imprint} (h : v.hash? .imprint = some x) :
    (∃ a, v.atom? = some a ∧ x = a.imprint) ∨
      ∃ items xs, v = tuple items ∧ hashes? .imprint items = some xs ∧ x = .combine xs := by
  cases v with
  | list | dict => cases h
  | tuple items =>
    obtain ⟨xs, hitems, rfl⟩ := Option.map_eq_some_iff.mp h
    exact .inr ⟨items, xs, rfl, hitems, rfl⟩
  | _ =>
    cases h
    exact .inl ⟨_, rfl, rfl⟩

/-- An imprint leaves no doubt about what it is the imprint of. -/
theorem same_of_imprint {v w : Value} {x : Imprint} (hv : v.hash? .imprint = some x)
    (hw : w.hash? .imprint = some x) : v.Same w := by
  induction v using parts_induction generalizing w x with
  | step v ih =>
    rcases imprint_cases hv with ⟨a, hva, rfl⟩ | ⟨items, xs, rfl, hitems, rfl⟩ <;>
      rcases imprint_cases hw with ⟨a', hwa, heq⟩ | ⟨items', xs', rfl, hitems', heq⟩
    · have haa' : a = a' := by cases a <;> cases a' <;> simp_all [Atom.imprint]
      exact same_iff.mpr (.atom (hva ▸ rfl) (by rw [hva, hwa, haa']))
    · cases a <;> cases heq
    · cases a' <;> cases heq
    · cases heq
      exact same_iff.mpr (.tuple (forall₂_of_common ih (forall₂_of_hashes? _ hitems)
        (forall₂_of_hashes? _ hitems')))

/-- Payloads are equal as far as hashing can see exactly if they leave the same imprint. -/
theorem sameHash_iff {v w : Value} :
    sameHash v w = true ↔ v.hash? .imprint = w.hash? .imprint := by
  unfold sameHash
  rw [← isSome_hash? Hasher.imprint v, ← isSome_hash? Hasher.imprint w]
  cases hv : v.hash? .imprint with
  | none => cases w.hash? .imprint <;> simp
  | some x =>
    cases hw : w.hash? .imprint with
    | none => simp
    | some y =>
      constructor
      · intro h
        rw [← hv, ← hw]
        exact Same.hash?_eq _ h
      · intro h
        cases h
        exact same_of_imprint hv hw

/-- Payloads that compare equal hash alike, or cannot be hashed. -/
theorem sameHash_of_same {v w : Value} (h : v.same w = true) : sameHash v w = true :=
  sameHash_iff.mpr (Same.hash?_eq _ h)

/-- Every hasher takes payloads for the same that hashing cannot tell apart. -/
theorem hash?_eq_of_sameHash {v w : Value} (h : sameHash v w = true) :
    v.hash? hasher = w.hash? hasher := by
  unfold sameHash at h
  split at h
  case isTrue => exact Same.hash?_eq _ h
  case isFalse hnot =>
    have heq : v.hashable = w.hashable := eq_of_beq h
    have hv : v.hashable = false := by simp_all
    rw [(hash?_eq_none_iff hasher).mpr hv, (hash?_eq_none_iff hasher).mpr (heq ▸ hv)]

end Value

namespace Expr

/-- Lists hash alike exactly if their expressions do, one by one. -/
theorem hashes_eq_iff {as bs : List Expr} : hashes hasher as = hashes hasher bs ↔
    List.Forall₂ (fun a b => a.hash hasher = b.hash hasher) as bs := by
  induction as generalizing bs with
  | nil => cases bs <;> simp [hashes]
  | cons a as ih => cases bs <;> simp [hashes, ih]

/-- The hash of a node depends on its frame and on the hashes of its payload and of its parts. -/
theorem hash_congr {a b : Expr} (hframe : a.frame = b.frame)
    (hpayload : List.Forall₂ (fun v w => v.hash? hasher = w.hash? hasher) a.ownPayload b.ownPayload)
    (hparts : List.Forall₂ (fun a b => a.hash hasher = b.hash hasher) a.parts b.parts) :
    a.hash hasher = b.hash hasher := by
  cases a <;> cases b <;>
    simp_all [frame, ownPayload, parts, operands, items, hash, ← hashes_eq_iff]

end Expr

/-! ### Nothing else is lost in a hash -/

namespace Hasher

/-- Imprints tell texts apart. -/
theorem text_imprint_inj {s t : String} : imprint.text s = imprint.text t ↔ s = t := by
  simp [imprint]

/-- Imprints tell apart what they are combined of. -/
theorem combine_imprint_inj {xs ys : List Imprint} :
    imprint.combine xs = imprint.combine ys ↔ xs = ys := by
  simp [imprint]

/-- The imprint of nothing is not combined of anything. -/
theorem nothing_ne_combine (xs : List Imprint) : imprint.nothing ≠ imprint.combine xs := by
  simp [imprint]

/-- Imprints tell members apart. -/
theorem member_imprint_inj {p q : Member} : imprint.member p = imprint.member q ↔ p = q := by
  cases p <;> cases q <;> simp [imprint, member]

/-- Imprints tell types apart. -/
theorem type_imprint_inj {t u : Ty} : imprint.type t = imprint.type u ↔ t = u := by
  obtain ⟨k, n⟩ := t
  obtain ⟨k', n'⟩ := u
  cases k <;> cases k' <;> simp [imprint, type, TyKind.title]

/-- Imprints tell apart what a field holds, and whether it holds anything. -/
theorem field_imprint_inj {name : String} {x y : Option Imprint} :
    [(name, x)].filterMap imprint.field = [(name, y)].filterMap imprint.field ↔ x = y := by
  cases x <;> cases y <;> simp [List.filterMap_cons, field, imprint]

/-- A field that holds something is hashed with its name. -/
theorem field_some (hasher : Hasher H) (name : String) (x : H) :
    hasher.field (name, some x) = some (hasher.combine [hasher.text name, x]) := rfl

end Hasher

/-- Operators with one operand are told apart by their titles. -/
theorem UnaryOp.title_inj {o o' : UnaryOp} : o.title = o'.title ↔ o = o' := by
  cases o <;> cases o' <;> simp [title]

/-- Operators with two operands are told apart by their titles. -/
theorem BinaryOp.title_inj {o o' : BinaryOp} : o.title = o'.title ↔ o = o' := by
  cases o <;> cases o' <;> simp [title]

namespace Expr

open Hasher in
/-- The imprint of a node gives away its frame and the imprints of its payload and its parts. -/
theorem hash_imprint_eq_iff {a b : Expr} : a.hash .imprint = b.hash .imprint ↔ a.frame = b.frame ∧
    List.Forall₂ (fun v w => v.hash? .imprint = w.hash? .imprint) a.ownPayload b.ownPayload ∧
    List.Forall₂ (fun a b => a.hash .imprint = b.hash .imprint) a.parts b.parts := by
  cases a <;> cases b <;>
    simp [hash, record, field_some, field_imprint_inj, combine_imprint_inj, text_imprint_inj,
      member_imprint_inj, type_imprint_inj, UnaryOp.title_inj, BinaryOp.title_inj, hashes_eq_iff,
      nothing_ne_combine, (nothing_ne_combine _).symm, Kind.nodeName, bareName, frame, ownPayload,
      parts, operands, items, and_comm, and_left_comm, and_assoc]

/-- Expressions that leave the same imprint are equal as far as hashing can see. -/
theorem hashEqual_of_imprint {a b : Expr} (h : a.hash .imprint = b.hash .imprint) :
    a.hashEqual b = true := by
  induction a using parts_induction generalizing b with
  | step a ih =>
    obtain ⟨hframe, hpayload, hparts⟩ := hash_imprint_eq_iff.mp h
    exact alike_iff.mpr ⟨hframe, hpayload.imp fun _ _ => Value.sameHash_iff.mpr,
      forall₂_imp_of_mem ih hparts⟩

/-- Expressions that are equal but for what cannot be hashed hash alike. -/
theorem hash_eq_of_hashEqual {a b : Expr} (h : a.hashEqual b = true) :
    a.hash hasher = b.hash hasher := by
  induction a using parts_induction generalizing b with
  | step a ih =>
    obtain ⟨hframe, hpayload, hparts⟩ := alike_iff.mp h
    exact hash_congr hasher hframe (hpayload.imp fun _ _ => Value.hash?_eq_of_sameHash hasher)
      (forall₂_imp_of_mem ih hparts)

/-- Expressions are equal as far as hashing can see exactly if every hasher takes them for the
same. -/
theorem hashEqual_iff_forall_hash {a b : Expr} : a.hashEqual b = true ↔
    ∀ {H : Type} (hasher : Hasher H), a.hash hasher = b.hash hasher :=
  ⟨fun h _ hasher => hash_eq_of_hashEqual hasher h, fun h => hashEqual_of_imprint (h .imprint)⟩

/-- Equal expressions are equal but for what cannot be hashed. -/
theorem hashEqual_of_equal {a b : Expr} (h : a.equal b = true) : a.hashEqual b = true :=
  alike_mono (fun _ _ => Value.sameHash_of_same) h

end Expr

end CanonicalAccess
