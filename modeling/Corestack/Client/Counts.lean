import Corestack.Client.Codec

/-!
# The counts of a response

`tally_count=` and `hash_count=` are whatever the sender claims, in any
number of lines. `bcl_decode_response` corrects the two counts at the end:
that of the rows against the rows it stored, that of the options against
the length of the array only.
-/

namespace Corestack.Client

open List Lib Corestack.Core Db Brain

/-- The response once all lines are read, with its counts corrected. -/
def corrected (c : RespCtx) : BclDecoded :=
  let r := c.resp
  let r :=
    if r.hashCount < 0 ∨ (c.rowI : Int) < r.hashCount then { r with hashCount := c.rowI } else r
  if r.optionCount < 0 ∨ (bbMaxOptions : Int) < r.optionCount then
    { r with optionCount := c.resultOptI } else r

/-- What stands in the response after `bcl_decode_response`, whatever it
returns. -/
def bclDecodeInto (body : Bytes) : BclDecoded := corrected ((bodyKvs body).foldl responseKv default)

theorem bclDecodeResponse_eq (http : HtttpResponse) :
    bclDecodeResponse http =
      if ((bodyKvs http.body).foldl responseKv default).statusValid then
        some (bclDecodeInto http.body)
      else none := rfl

theorem corrected_hashCount (c : RespCtx) :
    (corrected c).hashCount =
      if c.resp.hashCount < 0 ∨ (c.rowI : Int) < c.resp.hashCount then (c.rowI : Int)
      else c.resp.hashCount := by
  unfold corrected
  dsimp only
  split <;> split <;> rfl

theorem corrected_optionCount (c : RespCtx) :
    (corrected c).optionCount =
      if c.resp.optionCount < 0 ∨ (bbMaxOptions : Int) < c.resp.optionCount then
        (c.resultOptI : Int)
      else c.resp.optionCount := by
  unfold corrected
  dsimp only
  split <;> exact (apply_ite BclDecoded.optionCount ..)

theorem corrected_eq (c : RespCtx) :
    corrected c = { c.resp with
      hashCount := (corrected c).hashCount
      optionCount := (corrected c).optionCount } := by
  unfold corrected
  dsimp only
  split <;> split <;> rfl

/-! ## What arrives -/

def valuesOf (key : String) (kvs : List (Bytes × Bytes)) : List Bytes :=
  (kvs.filter fun kv => kv.1 = bytes key).map (·.2)

/-- How many `row=` lines are stored: those that can be read, while the
array has room. -/
def storedRows (kvs : List (Bytes × Bytes)) : Nat :=
  min bbMaxVoters ((valuesOf "row" kvs).filter fun v => (scanRow v).isSome).length

/-- How many `result_option=` lines are stored. -/
def storedOptions (kvs : List (Bytes × Bytes)) : Nat :=
  min bbMaxOptions (valuesOf "result_option" kvs).length

/-- What the last line with a key claims. -/
def claimed (key : String) (kvs : List (Bytes × Bytes)) : Int :=
  match (valuesOf key kvs).getLast? with
  | some v => atoi v
  | none => 0

theorem valuesOf_concat (key : String) (kvs : List (Bytes × Bytes)) (k v : Bytes) :
    valuesOf key (kvs ++ [(k, v)]) =
      valuesOf key kvs ++ if k = bytes key then [v] else [] := by
  by_cases h : k = bytes key <;> simp [valuesOf, filter_append, h]

theorem storedRows_concat (kvs : List (Bytes × Bytes)) (k v : Bytes) :
    storedRows (kvs ++ [(k, v)]) =
      if k = bytes "row" ∧ storedRows kvs < bbMaxVoters ∧ (scanRow v).isSome then
        storedRows kvs + 1
      else storedRows kvs := by
  simp only [storedRows, valuesOf_concat]
  by_cases hk : k = bytes "row"
  · cases hscan : scanRow v with
    | none => simp [hk, hscan]
    | some r =>
      simp only [hk, if_true, filter_append, length_append, filter_cons, hscan,
        Option.isSome_some, filter_nil, length_singleton, and_true, true_and]
      split <;> omega
  · simp [hk]

theorem storedOptions_concat (kvs : List (Bytes × Bytes)) (k v : Bytes) :
    storedOptions (kvs ++ [(k, v)]) =
      if k = bytes "result_option" ∧ storedOptions kvs < bbMaxOptions then storedOptions kvs + 1
      else storedOptions kvs := by
  simp only [storedOptions, valuesOf_concat]
  by_cases hk : k = bytes "result_option"
  · simp only [hk, if_true, length_append, length_singleton, true_and]
    split <;> omega
  · simp [hk]

theorem claimed_concat (key : String) (kvs : List (Bytes × Bytes)) (k v : Bytes) :
    claimed key (kvs ++ [(k, v)]) = if k = bytes key then atoi v else claimed key kvs := by
  simp only [claimed, valuesOf_concat]
  by_cases hk : k = bytes key
  · simp [hk]
  · simp [hk]

/-! ## The fold -/

/-- The line says nothing about the counts it has no key for. -/
structure KeepsCounts (k : Bytes) (c c' : RespCtx) : Prop where
  rowI : k ≠ bytes "row" → c'.rowI = c.rowI
  resultOptI : k ≠ bytes "result_option" → c'.resultOptI = c.resultOptI
  optionCount : k ≠ bytes "tally_count" → c'.resp.optionCount = c.resp.optionCount

theorem KeepsCounts.ite {k : Bytes} {p : Prop} [Decidable p] {c x y : RespCtx}
    (hx : p → KeepsCounts k c x) (hy : KeepsCounts k c y) :
    KeepsCounts k c (if p then x else y) := by
  split
  next h => exact hx h
  next => exact hy

theorem responseKv_keepsCounts (c : RespCtx) (k v : Bytes) :
    KeepsCounts k c (responseKv c (k, v)) := by
  -- one goal for each key the decoder knows
  repeat' refine KeepsCounts.ite (fun h => ?_) ?_
  all_goals first
    | exact ⟨fun _ => rfl, fun _ => rfl, fun _ => rfl⟩
    | exact ⟨fun _ => rfl, fun _ => rfl, fun hne => absurd ‹k = bytes "tally_count"› hne⟩
    | exact ⟨fun _ => rfl, fun hne => absurd ‹k = bytes "result_option"› hne, fun _ => rfl⟩
    | cases resultFromName v <;> exact ⟨fun _ => rfl, fun _ => rfl, fun _ => rfl⟩
    | cases stateFromName v <;> exact ⟨fun _ => rfl, fun _ => rfl, fun _ => rfl⟩
    | cases scanRow v <;>
        exact ⟨fun hne => absurd ‹k = bytes "row"› hne, fun _ => rfl, fun _ => rfl⟩

theorem responseKv_row (c : RespCtx) (v : Bytes) :
    (responseKv c (bytes "row", v)).rowI =
      if c.rowI < bbMaxVoters ∧ (scanRow v).isSome then c.rowI + 1 else c.rowI := by
  rw [responseKv_row_eq]
  cases scanRow v with
  | none => split <;> simp
  | some r => split <;> simp_all

theorem responseKv_resultOption (c : RespCtx) (v : Bytes) :
    (responseKv c (bytes "result_option", v)).resultOptI =
      if c.resultOptI < bbMaxOptions then c.resultOptI + 1 else c.resultOptI := by
  rw [responseKv_resultOption_eq]
  split <;> rfl

/-- The fields the counts are made of are those of the lines read so far. -/
structure Counted (kvs : List (Bytes × Bytes)) (c : RespCtx) : Prop where
  rowI : c.rowI = storedRows kvs
  resultOptI : c.resultOptI = storedOptions kvs
  optionCount : c.resp.optionCount = claimed "tally_count" kvs

theorem Counted.step {kvs : List (Bytes × Bytes)} {c : RespCtx} (h : Counted kvs c)
    (kv : Bytes × Bytes) : Counted (kvs ++ [kv]) (responseKv c kv) := by
  obtain ⟨k, v⟩ := kv
  have hkeep := responseKv_keepsCounts c k v
  refine ⟨?_, ?_, ?_⟩
  · rw [storedRows_concat, ← h.rowI]
    by_cases hk : k = bytes "row"
    · subst hk
      rw [responseKv_row]
      simp only [true_and]
    · rw [hkeep.rowI hk, if_neg fun hrow => hk hrow.1]
  · rw [storedOptions_concat, ← h.resultOptI]
    by_cases hk : k = bytes "result_option"
    · subst hk
      rw [responseKv_resultOption]
      simp only [true_and]
    · rw [hkeep.resultOptI hk, if_neg fun hopt => hk hopt.1]
  · rw [claimed_concat, ← h.optionCount]
    by_cases hk : k = bytes "tally_count"
    · subst hk
      rfl
    · rw [hkeep.optionCount hk, if_neg hk]

theorem counted_foldl (kvs : List (Bytes × Bytes)) :
    Counted kvs (kvs.foldl responseKv default) := by
  induction kvs using List.reverseRecOn with
  | nil => exact ⟨rfl, rfl, rfl⟩
  | append_singleton kvs kv ih =>
    rw [foldl_concat]
    exact ih.step kv

/-! ## The counts afterwards -/

/-- The counts are not negative, and no larger than what was stored. -/
def CountsArrived (body : Bytes) : Prop :=
  let d := bclDecodeInto body
  (0 ≤ d.hashCount ∧ d.hashCount ≤ storedRows (bodyKvs body)) ∧
    0 ≤ d.optionCount ∧ d.optionCount ≤ storedOptions (bodyKvs body)

theorem hashCount_arrived (body : Bytes) :
    0 ≤ (bclDecodeInto body).hashCount ∧
      (bclDecodeInto body).hashCount ≤ storedRows (bodyKvs body) := by
  rw [bclDecodeInto, corrected_hashCount, ← (counted_foldl (bodyKvs body)).rowI]
  split <;> omega

theorem optionCount_eq (body : Bytes) :
    (bclDecodeInto body).optionCount =
      if claimed "tally_count" (bodyKvs body) < 0 ∨
          (bbMaxOptions : Int) < claimed "tally_count" (bodyKvs body) then
        (storedOptions (bodyKvs body) : Int)
      else claimed "tally_count" (bodyKvs body) := by
  have h := counted_foldl (bodyKvs body)
  rw [bclDecodeInto, corrected_optionCount, h.resultOptI, h.optionCount]

/-- The counts are what arrived exactly if the last `tally_count=` line is
outside the array or does not exceed the options that were stored. -/
theorem counts_arrived_iff (body : Bytes) :
    CountsArrived body ↔
      claimed "tally_count" (bodyKvs body) < 0 ∨
        (bbMaxOptions : Int) < claimed "tally_count" (bodyKvs body) ∨
        claimed "tally_count" (bodyKvs body) ≤ storedOptions (bodyKvs body) := by
  have hhash := hashCount_arrived body
  have hopt := optionCount_eq body
  constructor
  · rintro ⟨-, hnonneg, hle⟩
    rw [hopt] at hle
    split at hle
    next hout => exact hout.imp_right .inl
    next => exact .inr (.inr hle)
  · intro hclaim
    refine ⟨hhash, ?_⟩
    rw [hopt]
    split <;> omega

/-- Five options are announced and none is sent. -/
theorem announced_options_missing :
    let body := bytes "status=BB_OK\ntally_count=5\n"
    (bclDecodeInto body).optionCount = 5 ∧ storedOptions (bodyKvs body) = 0 ∧
      ¬ CountsArrived body := by
  have hopt : (bclDecodeInto (bytes "status=BB_OK\ntally_count=5\n")).optionCount = 5 := by
    decide +kernel
  have hstored : storedOptions (bodyKvs (bytes "status=BB_OK\ntally_count=5\n")) = 0 := by
    decide +kernel
  refine ⟨hopt, hstored, fun h => ?_⟩
  have hle := h.2.2
  omega

end Corestack.Client
