import Fraisier.Db.DsnRoundTrip
import Fraisier.Db.Throwaway
import Mathlib.Algebra.Group.Nat.Defs

/-!
# Names of throwaway databases

A name is a part of the live database's, the marker, a process id and a time. It may have 63
characters, and at the largest process id and the latest time it has as many: `throwawayName_fits`.
-/

namespace Fraisier.Db

open Fraisier.Data

/-! ## Digits of a base -/

section Digits

variable {b n m k : Nat}

theorem digitChar_injective (hn : n < 16) (hm : m < 16)
    (h : Nat.digitChar n = Nat.digitChar m) : n = m := by
  have hall : ∀ i j : Fin 16, Nat.digitChar i = Nat.digitChar j → i = j := by decide
  exact congrArg Fin.val (hall ⟨n, hn⟩ ⟨m, hm⟩ h)

/-- Numbers with the same digits are the same. -/
theorem toDigits_injective (hb : 1 < b) (hb' : b ≤ 16)
    (h : Nat.toDigits b n = Nat.toDigits b m) : n = m := by
  induction n using Nat.strongRecOn generalizing m with
  | ind n ih =>
      have hlong : ∀ i j, [Nat.digitChar i] ≠ Nat.toDigits b j ++ [Nat.digitChar (m % b)] ∧
          [Nat.digitChar i] ≠ Nat.toDigits b j ++ [Nat.digitChar (n % b)] := by
        intro i j
        constructor <;>
        · intro heq
          exact Nat.toDigits_ne_nil (List.append_inj_left' (heq.symm : _ ++ _ = [] ++ _) rfl)
      rw [Nat.toDigits_eq_if hb, @Nat.toDigits_eq_if b m hb] at h
      split at h
      next hn =>
        split at h
        next hm => exact digitChar_injective (hn.trans_le hb') (hm.trans_le hb') (List.cons.inj h).1
        next => exact absurd h (hlong n _).1
      next hn =>
        split at h
        next => exact absurd h.symm (hlong m _).2
        next hm =>
          obtain ⟨hfront, hlast⟩ := List.append_inj' h rfl
          have hmod : n % b = m % b := digitChar_injective
            ((Nat.mod_lt n (by omega)).trans_le hb') ((Nat.mod_lt m (by omega)).trans_le hb')
            (List.cons.inj hlast).1
          have hdiv : n / b = m / b := ih (n / b) (Nat.div_lt_self (by omega) hb) hfront
          rw [← Nat.div_add_mod n b, ← Nat.div_add_mod m b, hdiv, hmod]

theorem alphanum_of_mem_toDigits (hb : 1 < b) (hb' : b ≤ 16) {c : Char}
    (h : c ∈ Nat.toDigits b n) : c.isAlphanum = true := by
  have hall : ∀ i : Fin 16, (Nat.digitChar i).isAlphanum = true := by decide
  induction n using Nat.strongRecOn with
  | ind n ih =>
      rw [Nat.toDigits_eq_if hb] at h
      split at h
      next hlt =>
        rw [List.mem_singleton.mp h]
        exact hall ⟨n, by omega⟩
      next hle =>
        obtain h | h := List.mem_append.mp h
        · exact ih (n / b) (Nat.div_lt_self (by omega) hb) h
        · rw [List.mem_singleton.mp h]
          exact hall ⟨n % b, (Nat.mod_lt _ (by omega)).trans_le hb'⟩

end Digits

/-! ## Names -/

/-- What a name begins with: what the marker is put behind. -/
def throwawayHead (base : String) : List Char :=
  let cleaned := (base.toList.filter fun c => c.isAlphanum || c == '_').take 24
  if cleaned.head?.any Char.isAlpha then cleaned else "db".toList ++ cleaned

variable {base live : String} {pid pid' nanos nanos' : Nat}

/-- A name begins with a letter, and goes on with letters, digits and underscores. -/
theorem exists_throwawayHead (base : String) : ∃ first rest, throwawayHead base = first :: rest ∧
    first.isAlpha = true ∧ (∀ c ∈ rest, (c.isAlphanum || c == '_') = true) ∧ rest.length ≤ 25 := by
  have hword : ∀ c ∈ (base.toList.filter fun c => c.isAlphanum || c == '_').take 24,
      (c.isAlphanum || c == '_') = true := by
    intro c hc
    exact (List.mem_filter.mp (List.mem_of_mem_take hc)).2
  have hlength : ((base.toList.filter fun c => c.isAlphanum || c == '_').take 24).length ≤ 24 :=
    List.length_take_le 24 _
  rw [throwawayHead]
  generalize (base.toList.filter fun c => c.isAlphanum || c == '_').take 24 = cleaned
    at hword hlength ⊢
  split
  next hhead =>
    cases cleaned with
    | nil => cases hhead
    | cons first rest =>
        obtain ⟨-, hrest⟩ := List.forall_mem_cons.mp hword
        exact ⟨first, rest, rfl, hhead, hrest, by rw [List.length_cons] at hlength; omega⟩
  next =>
    refine ⟨'d', 'b' :: cleaned, rfl, by decide, ?_, ?_⟩
    · exact List.forall_mem_cons.mpr ⟨by decide, hword⟩
    · rw [List.length_cons]
      omega

/-- The parts of a name fit into it. -/
theorem toList_throwawayName (base : String) (hpid : pid ≤ 4194304) (hnanos : nanos < 2 ^ 64) :
    (throwawayName base pid nanos).toList = throwawayHead base ++ throwawayMarker.toList ++
      Nat.toDigits 10 pid ++ '_' :: Nat.toDigits 16 nanos := by
  obtain ⟨first, rest, hhead, -, -, hrest⟩ := exists_throwawayHead base
  have hdecimal : (Nat.toDigits 10 pid).length ≤ 7 :=
    (Nat.length_toDigits_le_iff (by decide) (by decide)).mpr (by omega)
  have hhex : (Nat.toDigits 16 nanos).length ≤ 16 :=
    (Nat.length_toDigits_le_iff (by decide) (by decide)).mpr (by omega)
  have hmarker : throwawayMarker.toList.length = 13 := rfl
  rw [throwawayName, String.toList_ofList]
  refine List.take_of_length_le ?_
  change (throwawayHead base ++ throwawayMarker.toList ++ Nat.toDigits 10 pid ++
    '_' :: Nat.toDigits 16 nanos).length ≤ 63
  rw [hhead]
  simp only [List.length_append, List.length_cons, hmarker]
  omega

theorem toNat_lt_of_word {c : Char} (h : (c.isAlphanum || c == '_') = true) : c.toNat < 128 := by
  obtain h | h := Bool.or_eq_true_iff.mp h
  · have hranges := alphanum_ranges h
    omega
  · rw [of_decide_eq_true h]
    decide

theorem utf8ByteSize_of_ascii {text : String} (h : ∀ c ∈ text.toList, c.toNat < 128) :
    text.utf8ByteSize = text.toList.length := by
  have hchars : ∀ chars : List Char, (∀ c ∈ chars, c.toNat < 128) →
      (String.ofList chars).utf8ByteSize = chars.length := by
    intro chars hchars
    induction chars with
    | nil => rfl
    | cons c chars ih =>
        obtain ⟨hc, hrest⟩ := List.forall_mem_cons.mp hchars
        have hsize : c.utf8Size = 1 := by
          rw [Char.utf8Size_eq_one_iff, UInt32.le_iff_toNat_le]
          exact Nat.le_of_lt_succ hc
        rw [String.ofList_cons, String.utf8ByteSize_append, String.utf8ByteSize_singleton, ih hrest,
          hsize, List.length_cons, Nat.add_comm]
  rw [← hchars text.toList h, String.ofList_toList]

/-- A name is a safe one for a database. -/
theorem validateDbName_throwawayName (base : String) (hpid : pid ≤ 4194304)
    (hnanos : nanos < 2 ^ 64) : validateDbName (throwawayName base pid nanos) = true := by
  obtain ⟨first, rest, hhead, hfirst, hrest, -⟩ := exists_throwawayHead base
  have hmarker : ∀ c ∈ throwawayMarker.toList, (c.isAlphanum || c == '_') = true :=
    List.all_eq_true.mp (by decide)
  have hdigits : ∀ b, 1 < b → b ≤ 16 → ∀ n, ∀ c ∈ Nat.toDigits b n,
      (c.isAlphanum || c == '_') = true := by
    intro b hb hb' n c hc
    rw [alphanum_of_mem_toDigits hb hb' hc, Bool.true_or]
  have hname : (throwawayName base pid nanos).toList = first :: (rest ++ throwawayMarker.toList ++
      Nat.toDigits 10 pid ++ '_' :: Nat.toDigits 16 nanos) := by
    rw [toList_throwawayName base hpid hnanos, hhead]
    rfl
  have hword : ∀ c ∈ rest ++ throwawayMarker.toList ++ Nat.toDigits 10 pid ++
      '_' :: Nat.toDigits 16 nanos, (c.isAlphanum || c == '_') = true := by
    simp only [List.forall_mem_append, List.forall_mem_cons]
    exact ⟨⟨⟨hrest, hmarker⟩, hdigits 10 (by decide) (by decide) pid⟩, by decide,
      hdigits 16 (by decide) (by decide) nanos⟩
  have hfirst' : (first.isAlphanum || first == '_') = true := by
    rw [Char.isAlphanum, hfirst, Bool.true_or, Bool.true_or]
  have hsize : (throwawayName base pid nanos).utf8ByteSize ≤ 63 := by
    rw [utf8ByteSize_of_ascii]
    · rw [throwawayName, String.toList_ofList]
      exact List.length_take_le 63 _
    · rw [hname]
      intro c hc
      obtain rfl | hc := List.mem_cons.mp hc
      · exact toNat_lt_of_word hfirst'
      · exact toNat_lt_of_word (hword c hc)
  rw [validateDbName, hname]
  simp only [hfirst, Bool.true_or, Bool.true_and, List.all_eq_true.mpr hword, hsize, decide_true]

/-- Names that differ in the process or in the time are different. -/
theorem throwawayName_injective (hpid : pid ≤ 4194304) (hnanos : nanos < 2 ^ 64)
    (hpid' : pid' ≤ 4194304) (hnanos' : nanos' < 2 ^ 64)
    (h : throwawayName base pid nanos = throwawayName base pid' nanos') :
    pid = pid' ∧ nanos = nanos' := by
  have hparts := congrArg String.toList h
  rw [toList_throwawayName base hpid hnanos, toList_throwawayName base hpid' hnanos',
    List.append_assoc _ (Nat.toDigits 10 pid), List.append_assoc _ (Nat.toDigits 10 pid'),
    List.append_right_inj] at hparts
  -- The decimal digits end at the first underscore behind the marker.
  have hsplit := congrArg (splitOnce ['_']) hparts
  rw [splitOnce_append Nat.underscore_not_in_toDigits,
    splitOnce_append Nat.underscore_not_in_toDigits] at hsplit
  obtain ⟨hdecimal, hhex⟩ := Prod.mk.inj (Option.some.inj hsplit)
  exact ⟨toDigits_injective (by decide) (by decide) hdecimal,
    toDigits_injective (by decide) (by decide) hhex⟩

/-- A name is safe for a database, carries the marker, may be torn down unless it is the live
database's, and is never cut: the same base with another process id or another time gives another
name. -/
theorem throwawayName_fits (base live : String) {pid nanos : Nat} (hpid : pid ≤ 4194304)
    (hnanos : nanos < 2 ^ 64) :
    validateDbName (throwawayName base pid nanos) = true ∧
    throwawayMarker.toList <:+: (throwawayName base pid nanos).toList ∧
    (teardownGuard (throwawayName base pid nanos) live = .ok () ↔
      throwawayName base pid nanos ≠ live) ∧
    (throwawayName base pid nanos).toList = throwawayHead base ++ throwawayMarker.toList ++
      Nat.toDigits 10 pid ++ '_' :: Nat.toDigits 16 nanos ∧
    ∀ pid' ≤ 4194304, ∀ nanos' < 2 ^ 64, (pid', nanos') ≠ (pid, nanos) →
      throwawayName base pid' nanos' ≠ throwawayName base pid nanos := by
  have hmarker := throwawayName_carries base pid nanos
  refine ⟨validateDbName_throwawayName base hpid hnanos, hmarker, teardownGuard_eq_ok_iff hmarker,
    toList_throwawayName base hpid hnanos, fun pid' hpid' nanos' hnanos' hne heq => hne ?_⟩
  obtain ⟨rfl, rfl⟩ := throwawayName_injective hpid' hnanos' hpid hnanos heq
  rfl

/-- At the largest process id and the latest time a name has all the characters it may have. -/
theorem throwawayName_fits_largest :
    (throwawayName "________________________" 4194304 (2 ^ 64 - 1)).toList.length = 63 ∧
    validateDbName (throwawayName "________________________" 4194304 (2 ^ 64 - 1)) = true :=
  ⟨by decide, (throwawayName_fits _ "shop" (by decide) (by decide)).1⟩

end Fraisier.Db
