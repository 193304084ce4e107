import Corestack.Core.Auth
import Corestack.Brain.Handlers

/-!
# The eligible voters that an operator types (`admin.c`)

`bc_fold_eligible` folds the names in place and then moves the first of each
to the front, in place as well. The list it leaves is compared byte by byte
with a login name that `user_name_fold` folded (`bb_check_eligibility`).
-/

namespace Corestack.Client

open Function List Lib Brain Corestack.Core

/-! ## `bc_fold_eligible` -/

/-- The first loop. It stops at the first entry that is not a user name. -/
def foldNames (count : Nat) (out : Nat → CertName) : Except CertName (Nat → CertName) :=
  (List.range count).foldlM
    (fun out i =>
      match userNameFold (out i).val with
      | none => .error (out i)
      | some folded => .ok (update out i (.copy bbCertLen folded.val)))
    out

/-- One round of the second loop: the entries below `kept` are those kept. -/
def keepFirst (s : (Nat → CertName) × Nat) (i : Nat) : (Nat → CertName) × Nat :=
  if (List.range s.2).any fun j => s.1 j = s.1 i then s
  else (if s.2 ≠ i then update s.1 s.2 (.copy bbCertLen (s.1 i).val) else s.1, s.2 + 1)

def dropRepeats (count : Nat) (out : Nat → CertName) : (Nat → CertName) × Nat :=
  (List.range count).foldl keepFirst (out, 0)

/-- The list that is left, or the entry that is reported. -/
def bcFoldEligible (typed : List CertName) : Except CertName (List CertName) := do
  let out ← foldNames typed.length fun i => typed.getD i default
  let (out, kept) := dropRepeats typed.length out
  return (List.range kept).map out

/-! ## Folding -/

/-- The entry as the first loop leaves it. -/
def lowered (name : CertName) : CertName := .copy bbCertLen (name.val.map toLower)

theorem userNameFold_eq {s : Bytes} {name : UserName} :
    userNameFold s = some name ↔ userNameOk s = true ∧ name.val = s.map toLower := by
  unfold userNameFold
  split
  · rename_i hok
    rw [Option.some.injEq, CStr.ext_iff]
    exact ⟨fun h => ⟨hok, h.symm⟩, fun h => h.2.symm⟩
  · rename_i hok
    exact ⟨fun h => (by cases h), fun h => absurd h.1 hok⟩

theorem lowered_val {name : CertName} (h : userNameOk name.val = true) :
    (lowered name).val = name.val.map toLower :=
  CStr.copy_val (by rw [length_map]; exact name.fits) (zero_notMem_fold h)

theorem foldNames_succ (n : Nat) (out : Nat → CertName) :
    foldNames (n + 1) out = foldNames n out >>= fun out =>
      match userNameFold (out n).val with
      | none => .error (out n)
      | some folded => .ok (update out n (.copy bbCertLen folded.val)) := by
  rw [foldNames, range_succ, foldlM_append]
  refine congrArg (foldNames n out >>= ·) (funext fun out => ?_)
  rw [foldlM_cons]
  split <;> rfl

theorem foldNames_ok {n : Nat} {out : Nat → CertName} (h : ∀ i < n, userNameOk (out i).val = true) :
    foldNames n out = .ok fun i => if i < n then lowered (out i) else out i := by
  induction n with
  | zero => rfl
  | succ n ih =>
    obtain ⟨folded, hfold⟩ : ∃ folded, userNameFold (out n).val = some folded := by
      rw [userNameFold, dif_pos (h n (Nat.lt_succ_self n))]
      exact ⟨_, rfl⟩
    rw [foldNames_succ, ih fun i hi => h i (Nat.lt_succ_of_lt hi)]
    show (match userNameFold (if n < n then lowered (out n) else out n).val with
      | none => _
      | some folded => _) = _
    rw [if_neg (Nat.lt_irrefl n), hfold]
    refine congrArg Except.ok (funext fun i => ?_)
    by_cases hi : i = n
    · subst hi
      rw [update_self, if_pos (Nat.lt_succ_self i), (userNameFold_eq.mp hfold).2, lowered]
    · rw [update_of_ne hi]
      refine if_congr ?_ rfl rfl
      omega

theorem foldNames_legal {n : Nat} {out out' : Nat → CertName} (h : foldNames n out = .ok out') :
    ∀ i < n, userNameOk (out i).val = true := by
  induction n generalizing out' with
  | zero => exact fun i hi => absurd hi (Nat.not_lt_zero i)
  | succ n ih =>
    rw [foldNames_succ] at h
    obtain ⟨mid, hmid, h⟩ := except_bind_ok.mp h
    have hbefore := ih hmid
    rw [foldNames_ok hbefore] at hmid
    cases hmid
    simp only [Nat.lt_irrefl, if_false] at h
    intro i hi
    rcases Nat.lt_succ_iff_lt_or_eq.mp hi with hlt | rfl
    · exact hbefore i hlt
    · split at h
      · cases h
      · rename_i folded hfold
        exact (userNameFold_eq.mp hfold).1

/-! ## Keeping the first of each -/

theorem eraseDups_snoc {α : Type} [BEq α] [LawfulBEq α] {l : List α} {x : α} :
    (l ++ [x]).eraseDups = if x ∈ l then l.eraseDups else l.eraseDups ++ [x] := by
  rw [eraseDups_append]
  by_cases h : x ∈ l
  · simp [h, List.removeAll]
  · simp [h, List.removeAll, eraseDups_cons]

theorem nodup_eraseDups (l : List CertName) : l.eraseDups.Nodup := by
  induction l using List.reverseRecOn with
  | nil => exact nodup_nil
  | append_singleton l x ih =>
    rw [eraseDups_snoc]
    split
    · exact ih
    · rename_i hx
      refine nodup_append.mpr ⟨ih, nodup_singleton x, fun a ha b hb => ?_⟩
      rw [mem_singleton.mp hb]
      rintro rfl
      exact hx (mem_eraseDups.mp ha)

theorem eraseDups_of_nodup {l : List CertName} (h : l.Nodup) : l.eraseDups = l := by
  induction l using List.reverseRecOn with
  | nil => rfl
  | append_singleton l x ih =>
    obtain ⟨hl, -, hx⟩ := nodup_append.mp h
    rw [eraseDups_snoc, if_neg fun hmem => hx x hmem x (mem_singleton_self x) rfl, ih hl]

theorem map_val_eraseDups (l : List CertName) :
    l.eraseDups.map (·.val) = (l.map (·.val)).eraseDups := by
  induction l using List.reverseRecOn with
  | nil => rfl
  | append_singleton l x ih =>
    have hmem : x.val ∈ l.map (·.val) ↔ x ∈ l :=
      mem_map_of_injective fun _ _ h => CStr.ext h
    rw [map_append, map_singleton, eraseDups_snoc, eraseDups_snoc, ← ih]
    by_cases hx : x ∈ l
    · rw [if_pos hx, if_pos (hmem.mpr hx)]
    · rw [if_neg hx, if_neg (mt hmem.mp hx), map_append, map_singleton]

/-- After `n` rounds: the kept entries are the first ones of each, and what
was not looked at yet is where it was. -/
theorem dropRepeats_spec (n : Nat) (out : Nat → CertName) :
    (List.range (dropRepeats n out).2).map (dropRepeats n out).1 =
        ((List.range n).map out).eraseDups ∧
      (dropRepeats n out).2 ≤ n ∧ ∀ i, n ≤ i → (dropRepeats n out).1 i = out i := by
  induction n with
  | zero => exact ⟨rfl, le_rfl, fun _ _ => rfl⟩
  | succ n ih =>
    have hstep : dropRepeats (n + 1) out = keepFirst (dropRepeats n out) n := by
      rw [dropRepeats, range_succ, foldl_append]
      rfl
    rw [hstep, range_succ, map_append, map_singleton, eraseDups_snoc]
    generalize dropRepeats n out = s at ih
    obtain ⟨arr, kept⟩ := s
    obtain ⟨hkept, hle, hrest⟩ := ih
    dsimp only at hkept hle hrest
    have hseen : ((List.range kept).any fun j => arr j = arr n) = true ↔
        out n ∈ (List.range n).map out := by
      rw [← mem_eraseDups, ← hkept, hrest n le_rfl]
      simp
    rw [keepFirst]
    by_cases hdup : out n ∈ (List.range n).map out
    · rw [if_pos (hseen.mpr hdup), if_pos hdup]
      exact ⟨hkept, by omega, fun i hi => hrest i (by omega)⟩
    · rw [if_neg fun h => hdup (hseen.mp h), if_neg hdup]
      have hmoved : (if kept ≠ n then update arr kept (.copy bbCertLen (arr n).val)
          else arr) = update arr kept (out n) := by
        rw [CStr.copy_self, hrest n le_rfl]
        split
        · rfl
        · rename_i heq
          rw [← hrest n le_rfl, not_not.mp heq, update_eq_self]
      dsimp only
      rw [hmoved]
      refine ⟨?_, by omega, fun i hi => ?_⟩
      · rw [range_succ, map_append, map_singleton, update_self, ← hkept]
        congr 1
        refine map_congr_left fun i hi => ?_
        exact update_of_ne (Nat.ne_of_lt (mem_range.mp hi)) _ _
      · rw [update_of_ne (by omega)]
        exact hrest i (by omega)

/-! ## The whole function -/

theorem range_getD (typed : List CertName) :
    (List.range typed.length).map (fun i => typed.getD i default) = typed := by
  refine ext_getElem (by simp) fun i hi hi' => ?_
  simp [getD_eq_getElem?_getD, hi']

theorem bcFoldEligible_ok {typed : List CertName} (h : ∀ t ∈ typed, userNameOk t.val = true) :
    bcFoldEligible typed = .ok (typed.map lowered).eraseDups := by
  have hlegal : ∀ i < typed.length, userNameOk (typed.getD i default).val = true := by
    intro i hi
    rw [getD_eq_getElem?_getD, List.getElem?_eq_getElem hi]
    exact h _ (getElem_mem hi)
  rw [bcFoldEligible, foldNames_ok hlegal]
  refine congrArg Except.ok ?_
  refine (dropRepeats_spec _ _).1.trans (congrArg List.eraseDups ?_)
  conv_rhs => rw [← range_getD typed, map_map]
  exact map_congr_left fun i hi => if_pos (mem_range.mp hi)

theorem bcFoldEligible_legal {typed folded : List CertName}
    (h : bcFoldEligible typed = .ok folded) :
    ∀ t ∈ typed, userNameOk t.val = true := by
  obtain ⟨out, hout, -⟩ := except_bind_ok.mp h
  intro t ht
  obtain ⟨i, hi, rfl⟩ := mem_iff_getElem.mp ht
  have := foldNames_legal hout i hi
  rwa [getD_eq_getElem?_getD, List.getElem?_eq_getElem hi] at this

/-! ## Case -/

/-- One letter in two cases, or one byte. -/
def SameLetter (c d : UInt8) : Prop :=
  c = d ∨ (65 ≤ c ∧ c ≤ 90 ∧ d = c + 32) ∨ (65 ≤ d ∧ d ≤ 90 ∧ c = d + 32)

instance : DecidableRel SameLetter := fun _ _ => inferInstanceAs (Decidable (_ ∨ _))

theorem toLower_eq_iff (c d : UInt8) : toLower c = toLower d ↔ SameLetter c d := by
  simp only [SameLetter, toLower, Bool.and_eq_true, decide_eq_true_eq]
  grind

/-- The two names are equal up to the case of letters. -/
def SameButCase (s t : Bytes) : Prop := List.Forall₂ SameLetter s t

theorem map_toLower_eq_iff {s t : Bytes} : s.map toLower = t.map toLower ↔ SameButCase s t := by
  rw [← forall₂_eq_eq_eq, forall₂_map_left_iff, forall₂_map_right_iff]
  simp only [toLower_eq_iff]
  rfl

/-! ## Who is eligible -/

theorem userNameOk_lowered {name : CertName} (h : userNameOk name.val = true) :
    userNameOk (lowered name).val = true ∧ lowered (lowered name) = lowered name := by
  have hbyte : ∀ n < 256, userNameCharOk (.ofNat n) = true →
      userNameCharOk (toLower (.ofNat n)) = true ∧
        toLower (toLower (.ofNat n)) = toLower (.ofNat n) := by decide +kernel
  have hchar : ∀ c ∈ name.val, userNameCharOk (toLower c) = true ∧
      toLower (toLower c) = toLower c := by
    intro c hc
    have := hbyte c.toNat c.toNat_lt
    rw [UInt8.ofNat_toNat] at this
    exact this (all_eq_true.mp (Bool.and_eq_true_iff.mp h).2 c hc)
  have hok : userNameOk (lowered name).val = true := by
    rw [lowered_val h]
    simp only [userNameOk, Bool.and_eq_true, length_map, all_map, all_eq_true] at h ⊢
    exact ⟨h.1, fun c hc => (hchar c hc).1⟩
  refine ⟨hok, CStr.ext ?_⟩
  rw [lowered_val hok, lowered_val h, map_map]
  exact map_congr_left fun c hc => (hchar c hc).2

/-- The list that an operator's names are folded to: nobody is on it twice,
it has the first of each name in order, folding it again leaves it alone,
and an election with that list admits a login name exactly if the operator
typed it in some case. -/
theorem eligible_up_to_case (typed folded : List CertName)
    (hfold : bcFoldEligible typed = .ok folded) :
    folded.Nodup ∧
    folded.map (·.val) = (typed.map fun t => t.val.map toLower).eraseDups ∧
    bcFoldEligible folded = .ok folded ∧
    ∀ (e : BbElection) (login : Bytes) (name : UserName), e.eligible = folded →
      userNameFold login = some name →
      (bbCheckEligibility e (.copy bbCertLen name.val) = true ↔
        ∃ t ∈ typed, SameButCase t.val login) := by
  have hlegal := bcFoldEligible_legal hfold
  obtain rfl : (typed.map lowered).eraseDups = folded :=
    Except.ok.inj ((bcFoldEligible_ok hlegal).symm.trans hfold)
  have hval : ∀ t ∈ typed, (lowered t).val = t.val.map toLower :=
    fun t ht => lowered_val (hlegal t ht)
  have hmem : ∀ x ∈ (typed.map lowered).eraseDups, ∃ t ∈ typed, lowered t = x := fun x hx =>
    mem_map.mp (mem_eraseDups.mp hx)
  refine ⟨nodup_eraseDups _, ?_, ?_, ?_⟩
  · rw [map_val_eraseDups, map_map]
    exact congrArg List.eraseDups (map_congr_left hval)
  · have hagain : ∀ x ∈ (typed.map lowered).eraseDups,
        userNameOk x.val = true ∧ lowered x = x := by
      intro x hx
      obtain ⟨t, ht, rfl⟩ := hmem x hx
      exact userNameOk_lowered (hlegal t ht)
    rw [bcFoldEligible_ok fun x hx => (hagain x hx).1, map_congr_left fun x hx => (hagain x hx).2,
      map_id', eraseDups_of_nodup (nodup_eraseDups _)]
  · intro e login name hlist hlogin
    obtain ⟨-, hname⟩ := userNameFold_eq.mp hlogin
    have hcert : (CStr.copy bbCertLen name.val).val = login.map toLower := by
      rw [CStr.copy_val (Nat.lt_trans name.fits (by decide)) name.noNul, hname]
    rw [bbCheckEligibility, hlist, any_eq_true, hcert]
    simp only [decide_eq_true_eq, mem_eraseDups, mem_map, exists_exists_and_eq_and]
    refine exists_congr fun t => and_congr_right fun ht => ?_
    rw [hval t ht, map_toLower_eq_iff]

/-- `Ann, bob, ANN`: two voters, and `aNN` is one of them. -/
theorem eligible_up_to_case_ann :
    bcFoldEligible [.copy _ [65, 110, 110], .copy _ [98, 111, 98], .copy _ [65, 78, 78]] =
        .ok [.copy _ [97, 110, 110], .copy _ [98, 111, 98]] ∧
      bbCheckEligibility
        { (default : BbElection) with eligible := [.copy _ [97, 110, 110], .copy _ [98, 111, 98]] }
        (.copy bbCertLen [97, 110, 110]) = true := by
  have hfold : bcFoldEligible
      [.copy _ [65, 110, 110], .copy _ [98, 111, 98], .copy _ [65, 78, 78]] =
        .ok [.copy _ [97, 110, 110], .copy _ [98, 111, 98]] := by decide
  refine ⟨hfold, ((eligible_up_to_case _ _ hfold).2.2.2 _ [97, 78, 78] (.copy _ [97, 110, 110])
    rfl (by decide)).mpr ⟨.copy _ [65, 110, 110], mem_cons_self, ?_⟩⟩
  exact map_toLower_eq_iff.mp (by decide)

end Corestack.Client
