import Corestack.Client.Codec
import Corestack.Core.RoundTrip

/-!
# Which responses can be sent

A response goes out if its status has a name, if no text in it breaks a
line, and if it fits. The arrays of a response are bounded, so what ballotd
builds always fits, and the client then reads the status back.
-/

namespace Corestack.Client

open List Lib Corestack.Core Db Brain

/-! ## Bodies as lists of fields -/

def csv (tally : Fin bbMaxOptions → Nat) (count : Nat) : Bytes :=
  ((inUse count).map fun i => (if i = 0 then [] else bytes ",") ++ fmtInt (tally i)).flatten

/-- The lines of the response body behind the status line. -/
def responseKvs (op : BclOp) (resp : BclResponse) : List (String × Bytes) :=
  match op with
  | .create | .adminNextId =>
    if resp.election.id.val ≠ [] then [("election_id", resp.election.id.val)] else []
  | .opening | .closing | .publish => []
  | .join =>
    if resp.election.id.val ≠ [] then
      [("election_id", resp.election.id.val), ("title", resp.election.title.val),
        ("state", bbStateStr resp.election.state), ("open_time", resp.election.openTime.val),
        ("close_time", resp.election.closeTime.val),
        ("has_prior_ballot", fmtInt (boolInt resp.hasPriorBallot)),
        ("prior_ballot_version", fmtInt resp.priorBallotVersion)] ++
      (inUse resp.election.optionCount).map fun i => ("option", (resp.election.options i).val)
    else []
  | .cast | .update =>
    if resp.receipt.hash.val ≠ [] then
      [("hash", resp.receipt.hash.val), ("issued_at", resp.receipt.issuedAt.val)]
    else []
  | .results | .adminResults =>
    [("election_id", resp.election.id.val), ("title", resp.election.title.val),
      ("tally_count", fmtInt resp.optionCount)] ++
    (if 0 < resp.optionCount then
      ("tally", csv resp.tally resp.optionCount) ::
        (inUse resp.optionCount).map fun i => ("result_option", (resp.options i).val)
    else []) ++
    [("hash_count", fmtInt resp.hashes.length)] ++
    resp.hashes.map fun h => ("row", rowText h)
  | .check | .adminCheck =>
    ("found", fmtInt (boolInt resp.found)) ::
      if resp.found then
        [("found_option", fmtInt resp.foundOption),
          ("found_option_name", resp.foundOptionName.val)]
      else []

def kvText (kvs : List (String × Bytes)) : Bytes := (kvs.map fun kv => field kv.1 kv.2).flatten

theorem kvText_append (a b : List (String × Bytes)) : kvText (a ++ b) = kvText a ++ kvText b := by
  simp [kvText]

theorem flatten_tallyPieces (tally : Fin bbMaxOptions → Nat) (count : Nat) :
    (tallyPieces tally count).flatten = field "tally" (csv tally count) := by
  have h : bytes "tally=" = bytes "tally" ++ bytes "=" := rfl
  simp [tallyPieces, csv, field, h]

theorem flatten_responsePieces (op : BclOp) (resp : BclResponse) :
    (responsePieces op resp).flatten = kvText (responseKvs op resp) := by
  cases op with
  | create | adminNextId | cast | update | join =>
    simp only [responsePieces, responseKvs]
    split <;> simp [kvText, Function.comp_def]
  | opening | closing | publish => rfl
  | results | adminResults =>
    simp only [responsePieces, responseKvs]
    split <;> simp [kvText, Function.comp_def, flatten_tallyPieces]
  | check | adminCheck =>
    simp only [responsePieces, responseKvs]
    split <;> simp [kvText]

/-- A key that is read as it was written. -/
structure PlainKey (k : Bytes) : Prop where
  ne : k ≠ []
  noEq : 61 ∉ k
  noLf : lf ∉ k
  noNul : 0 ∉ k
  short : k.length < 64

instance (k : Bytes) : Decidable (PlainKey k) :=
  decidable_of_iff (k ≠ [] ∧ 61 ∉ k ∧ lf ∉ k ∧ 0 ∉ k ∧ k.length < 64)
    ⟨fun ⟨h1, h2, h3, h4, h5⟩ => ⟨h1, h2, h3, h4, h5⟩, fun ⟨h1, h2, h3, h4, h5⟩ =>
      ⟨h1, h2, h3, h4, h5⟩⟩

def responseKeys : List String :=
  ["election_id", "title", "state", "open_time", "close_time", "has_prior_ballot",
    "prior_ballot_version", "option", "hash", "issued_at", "tally_count", "tally",
    "result_option", "hash_count", "row", "found", "found_option", "found_option_name"]

theorem responseKeys_plain :
    ∀ k ∈ responseKeys, PlainKey (bytes k) ∧ bytes k ≠ bytes "status" := by
  decide

theorem responseKvs_keys (op : BclOp) (resp : BclResponse) :
    ∀ kv ∈ responseKvs op resp, kv.1 ∈ responseKeys := by
  have hkeys : ∀ k ∈ responseKeys, k ∈ responseKeys := fun _ h => h
  simp only [responseKeys, forall_mem_cons] at hkeys
  cases op with
  | create | adminNextId | cast | update | join | results | adminResults | check | adminCheck =>
    simp only [responseKvs]
    split <;>
    simp only [forall_mem_append, forall_mem_cons, forall_mem_map,
      not_mem_nil, false_implies, implies_true, and_true, responseKeys, hkeys]
  | opening | closing | publish => exact fun _ h => absurd h not_mem_nil

/-! ## Reading fields back -/

theorem lineKv_field {k v : Bytes} (hk : PlainKey k) (hv : cr ∉ v) :
    lineKv (k ++ bytes "=" ++ v) = some (k, (CStr.copy 320 v).val) := by
  have heq : bytes "=" = [61] := by decide
  have hlast : (k ++ bytes "=" ++ v).getLast? ≠ some cr := by
    rw [heq, append_assoc, List.getLast?_append]
    cases v with
    | nil => simp [cr]
    | cons c v =>
      intro h
      have hmem : cr ∈ 61 :: c :: v := by
        exact mem_of_getLast? h
      rcases mem_cons.mp hmem with h | h
      · cases h
      · exact hv h
  have hall : ∀ c ∈ k, decide (c ≠ 61) = true := by
    intro c hc
    refine decide_eq_true ?_
    rintro rfl
    exact hk.noEq hc
  have htake : (k ++ bytes "=" ++ v).takeWhile (· ≠ 61) = k := by
    rw [append_assoc, takeWhile_append_of_pos hall, heq]
    simp
  have hcopy : (CStr.copy 64 k).val = k := CStr.copy_val hk.short hk.noNul
  simp only [lineKv, if_neg hlast, htake]
  rw [append_assoc, drop_left, heq]
  simp only [singleton_append, if_neg hk.ne, hcopy]

theorem copy_value {n : Nat} (s : CStr n) (hn : n ≤ 320) : (CStr.copy 320 s.val).val = s.val :=
  CStr.copy_val (lt_of_lt_of_le s.fits hn) s.noNul

theorem bodyKvs_kvText :
    ∀ {kvs : List (String × Bytes)}, (∀ kv ∈ kvs, PlainKey (bytes kv.1)) →
      (∀ kv ∈ kvs, breaksLine kv.2 = false) →
      bodyKvs (kvText kvs) = kvs.map fun kv => (bytes kv.1, (CStr.copy 320 kv.2).val)
  | [], _, _ => by rfl
  | kv :: kvs, hk, hv => by
    have hclean : lf ∉ kv.2 ∧ cr ∉ kv.2 := breaksLine_eq_false.mp (hv kv (by simp))
    have hkey := hk kv (by simp)
    have hline : lf ∉ bytes kv.1 ++ bytes "=" ++ kv.2 := by
      have : lf ∉ bytes "=" := by decide
      simp [hkey.noLf, hclean.1, this]
    have htext : kvText (kv :: kvs) =
        (bytes kv.1 ++ bytes "=" ++ kv.2) ++ lf :: kvText kvs := by
      simp [kvText, field]
    have ih := bodyKvs_kvText (fun x hx => hk x (mem_cons_of_mem _ hx)) fun x hx =>
      hv x (mem_cons_of_mem _ hx)
    rw [bodyKvs, htext, split_append hline, filterMap_cons, lineKv_field hkey hclean.2]
    simp only [map_cons]
    rw [← ih]
    rfl

/-- The status read so far is still the same. -/
def KeepsStatus (c c' : RespCtx) : Prop :=
  c'.resp.status = c.resp.status ∧ c'.statusValid = c.statusValid

theorem KeepsStatus.ite {p : Prop} [Decidable p] {c x y : RespCtx} (hx : KeepsStatus c x)
    (hy : KeepsStatus c y) : KeepsStatus c (if p then x else y) := by
  split <;> assumption

theorem responseKv_status (c : RespCtx) {kv : Bytes × Bytes} (h : kv.1 ≠ bytes "status") :
    KeepsStatus c (responseKv c kv) := by
  obtain ⟨k, v⟩ := kv
  rw [responseKv, if_neg h]
  -- one goal for each key the decoder knows
  repeat' apply KeepsStatus.ite
  all_goals first
    | exact ⟨rfl, rfl⟩
    | cases stateFromName v <;> exact ⟨rfl, rfl⟩
    | cases scanRow v <;> exact ⟨rfl, rfl⟩

theorem foldl_responseKv_status {kvs : List (Bytes × Bytes)}
    (h : ∀ kv ∈ kvs, kv.1 ≠ bytes "status") (c : RespCtx) :
    KeepsStatus c (kvs.foldl responseKv c) := by
  induction kvs generalizing c with
  | nil => exact ⟨rfl, rfl⟩
  | cons kv kvs ih =>
    have h1 := ih (fun x hx => h x (mem_cons_of_mem _ hx)) (responseKv c kv)
    have h2 := responseKv_status c (h kv mem_cons_self)
    exact ⟨h1.1.trans h2.1, h1.2.trans h2.2⟩

variable {st : Option BbErr} {name : Bytes}

theorem nameFromResult_some (h : nameFromResult st = some name) :
    resultFromName name = some st ∧ breaksLine name = false ∧ name.length ≤ 25 ∧ 0 ∉ name := by
  have hall : ∀ e ∈ resultNames, resultFromName e.2 = some e.1 ∧ breaksLine e.2 = false ∧
      e.2.length ≤ 25 ∧ 0 ∉ e.2 := by decide +kernel
  obtain ⟨e, he, rfl⟩ := Option.map_eq_some_iff.mp h
  have hst := List.find?_some he
  rw [decide_eq_true_eq] at hst
  rw [← hst]
  exact hall e (mem_of_find?_eq_some he)

variable {kvs : List (String × Bytes)}

theorem bodyKvs_response (hname : nameFromResult st = some name)
    (hkeys : ∀ kv ∈ kvs, kv.1 ∈ responseKeys) (hclean : ∀ kv ∈ kvs, breaksLine kv.2 = false) :
    bodyKvs (kvText (("status", name) :: kvs)) =
      (bytes "status", name) :: kvs.map fun kv => (bytes kv.1, (CStr.copy 320 kv.2).val) := by
  obtain ⟨-, hline, hlen, h0⟩ := nameFromResult_some hname
  have hstatus : PlainKey (bytes "status") := by decide +kernel
  rw [bodyKvs_kvText]
  · rw [map_cons, CStr.copy_val (by omega) h0]
  · intro kv hkv
    rcases mem_cons.mp hkv with rfl | hkv
    · exact hstatus
    · exact (responseKeys_plain _ (hkeys kv hkv)).1
  · intro kv hkv
    rcases mem_cons.mp hkv with rfl | hkv
    · exact hline
    · exact hclean kv hkv

theorem bclDecodeResponse_status {http : HtttpResponse} (hname : nameFromResult st = some name)
    (hbody : http.body = kvText (("status", name) :: kvs)) (hkeys : ∀ kv ∈ kvs, kv.1 ∈ responseKeys)
    (hclean : ∀ kv ∈ kvs, breaksLine kv.2 = false) :
    ∃ d, bclDecodeResponse http = some d ∧ d.status = st := by
  obtain ⟨hres, -, -, -⟩ := nameFromResult_some hname
  have hkvs := hbody ▸ bodyKvs_response hname hkeys hclean
  have hrest : ∀ kv ∈ kvs.map fun kv => (bytes kv.1, (CStr.copy 320 kv.2).val),
      kv.1 ≠ bytes "status" := by
    intro kv hkv
    obtain ⟨x, hx, rfl⟩ := mem_map.mp hkv
    exact (responseKeys_plain _ (hkeys x hx)).2
  have hfold := foldl_responseKv_status hrest (responseKv default (bytes "status", name))
  have hfirst : (responseKv default (bytes "status", name)).resp.status = st ∧
      (responseKv default (bytes "status", name)).statusValid = true := by
    simp [responseKv, hres]
  simp only [bclDecodeResponse, hkvs, foldl_cons]
  rw [KeepsStatus, hfirst.1, hfirst.2] at hfold
  simp only [hfold.2, if_true, Option.some.injEq, exists_eq_left']
  split <;> split <;> exact hfold.1

/-! ## What goes out -/

/-- A row whose numbers are values of an `int`. -/
structure IntRow (h : BbBallotHash) : Prop where
  optionIndex : IsInt32 h.optionIndex
  version : IsInt32 h.version
  superseded : IsInt32 h.superseded

/-- The counts are within the arrays and the numbers are values of an `int`. -/
structure Shaped (resp : BclResponse) : Prop where
  priorBallotVersion : IsInt32 resp.priorBallotVersion
  tally : ∀ i, IsInt32 (resp.tally i)
  optionCount : resp.optionCount ≤ bbMaxOptions
  hashes : resp.hashes.length ≤ bbMaxVoters
  rows : ∀ h ∈ resp.hashes, IntRow h
  foundOption : IsInt32 resp.foundOption

/-- The texts in a response that are not the encoder's own. -/
def responseTexts (op : BclOp) (resp : BclResponse) : List Bytes :=
  match op with
  | .create | .adminNextId => if resp.election.id.val ≠ [] then [resp.election.id.val] else []
  | .opening | .closing | .publish => []
  | .join =>
    if resp.election.id.val ≠ [] then
      [resp.election.id.val, resp.election.title.val, resp.election.openTime.val,
        resp.election.closeTime.val] ++
      (inUse resp.election.optionCount).map fun i => (resp.election.options i).val
    else []
  | .cast | .update =>
    if resp.receipt.hash.val ≠ [] then [resp.receipt.hash.val, resp.receipt.issuedAt.val] else []
  | .results | .adminResults =>
    [resp.election.id.val, resp.election.title.val] ++
    (if 0 < resp.optionCount then (inUse resp.optionCount).map fun i => (resp.options i).val
      else []) ++
    resp.hashes.map fun h => h.hash.val
  | .check | .adminCheck => if resp.found then [resp.foundOptionName.val] else []

/-- No text in the response breaks a line. -/
def Clean (op : BclOp) (resp : BclResponse) : Prop :=
  ∀ t ∈ responseTexts op resp, breaksLine t = false

theorem breaksLine_fmtInt (v : Int) : breaksLine (fmtInt v) = false :=
  breaksLine_eq_false.mpr ⟨notMem_fmtInt rfl (by decide), notMem_fmtInt rfl (by decide)⟩

theorem breaksLine_bbStateStr (st : BbState) : breaksLine (bbStateStr st) = false := by
  cases st <;> rfl

theorem breaksLine_rowText (h : BbBallotHash) :
    breaksLine (rowText h) = breaksLine h.hash.val := by
  have hcomma : breaksLine (bytes ",") = false := rfl
  simp only [rowText, breaksLine_append, hcomma, breaksLine_fmtInt, Bool.or_false]

theorem breaksLine_flatten (l : List Bytes) : breaksLine l.flatten = l.any breaksLine := by
  induction l with
  | nil => rfl
  | cons a l ih => rw [flatten_cons, breaksLine_append, ih, any_cons]

theorem tallyEntry_clean (tally : Fin bbMaxOptions → Nat) (i : Fin bbMaxOptions) :
    breaksLine ((if i = 0 then [] else bytes ",") ++ fmtInt (tally i)) = false := by
  have hcomma : breaksLine (bytes ",") = false := rfl
  rw [breaksLine_append, breaksLine_fmtInt, Bool.or_false]
  split
  · rfl
  · exact hcomma

theorem breaksLine_csv (tally : Fin bbMaxOptions → Nat) (count : Nat) :
    breaksLine (csv tally count) = false := by
  rw [csv, breaksLine_flatten, any_map]
  exact any_eq_false.mpr fun i _ => by
    rw [Function.comp_apply, tallyEntry_clean]
    exact Bool.false_ne_true

theorem clean_iff_kvs (op : BclOp) (resp : BclResponse) :
    Clean op resp ↔ ∀ kv ∈ responseKvs op resp, breaksLine kv.2 = false := by
  unfold Clean
  cases op with
  | opening | closing | publish => simp only [responseTexts, responseKvs, not_mem_nil,
      false_implies, implies_true]
  | create | adminNextId | cast | update | join | results | adminResults | check | adminCheck =>
    simp only [responseTexts, responseKvs]
    split <;>
    simp only [forall_mem_append, forall_mem_cons, forall_mem_map,
      not_mem_nil, false_implies, implies_true, and_true, true_and, and_assoc,
      breaksLine_fmtInt, breaksLine_bbStateStr, breaksLine_rowText, breaksLine_csv]

/-- A text that `body_append` takes, as far as line breaks go. -/
def PieceOk (p : Bytes) : Prop := cr ∉ p ∧ lf ∉ p.dropLast

theorem pieceOk_of_clean {p : Bytes} (h : breaksLine p = false) : PieceOk p := by
  simp only [breaksLine, any_eq_false, Bool.or_eq_true, decide_eq_true_eq, not_or] at h
  exact ⟨fun hc => (h _ hc).2 rfl, fun hl => (h _ (mem_of_mem_dropLast hl)).1 rfl⟩

theorem pieceOk_field {k : String} (hk : breaksLine (bytes k) = false) (v : Bytes) :
    PieceOk (field k v) ↔ breaksLine v = false := by
  have heq : breaksLine (bytes "=") = false := rfl
  have hfield : field k v = (bytes k ++ bytes "=" ++ v) ++ [lf] := rfl
  have hiff : PieceOk (field k v) ↔ breaksLine (bytes k ++ bytes "=" ++ v) = false := by
    rw [PieceOk, hfield, dropLast_concat]
    generalize bytes k ++ bytes "=" ++ v = s
    simp only [breaksLine, any_eq_false, Bool.or_eq_true, decide_eq_true_eq, not_or,
      mem_append, mem_singleton, show ¬ cr = lf by decide, not_false_eq_true, and_true]
    constructor
    · rintro ⟨h1, h2⟩ x hx
      refine ⟨?_, ?_⟩
      · rintro rfl
        exact h2 hx
      · rintro rfl
        exact h1 hx
    · intro h
      exact ⟨fun hc => (h _ hc).2 rfl, fun hl => (h _ hl).1 rfl⟩
  rw [hiff, breaksLine_append, breaksLine_append, hk, heq, Bool.false_or, Bool.false_or]

theorem forall_responsePieces (op : BclOp) (resp : BclResponse) :
    (∀ p ∈ responsePieces op resp, PieceOk p) ↔
      ∀ kv ∈ responseKvs op resp, PieceOk (field kv.1 kv.2) := by
  have htally : ∀ p ∈ tallyPieces resp.tally resp.optionCount, PieceOk p := by
    intro p hp
    simp only [tallyPieces, cons_append, mem_cons, mem_append, mem_map,
      not_mem_nil, or_false] at hp
    rcases hp with rfl | ⟨i, -, rfl⟩ | rfl
    · exact pieceOk_of_clean (by rfl)
    · exact pieceOk_of_clean (tallyEntry_clean resp.tally i)
    · exact ⟨by decide, by decide⟩
  have hcsv : PieceOk (field "tally" (csv resp.tally resp.optionCount)) :=
    (pieceOk_field (by rfl) _).mpr (breaksLine_csv _ _)
  cases op with
  | opening | closing | publish => simp only [responsePieces, responseKvs, not_mem_nil,
      false_implies, implies_true]
  | create | adminNextId | cast | update | join | check | adminCheck =>
    simp only [responsePieces, responseKvs]
    split <;>
    simp only [forall_mem_append, forall_mem_cons, forall_mem_map,
      not_mem_nil, false_implies, implies_true, and_true]
  | results | adminResults =>
    simp only [responsePieces, responseKvs]
    split
    · simp only [forall_mem_append, forall_mem_cons, forall_mem_map, hcsv,
        true_and, not_mem_nil, false_implies, implies_true, and_true]
      exact and_congr_left fun _ => and_congr_left fun _ => and_congr_right fun _ =>
        and_iff_right htally
    · simp only [forall_mem_append, forall_mem_cons, forall_mem_map,
        not_mem_nil, false_implies, implies_true, and_true]

theorem responseKeys_clean : ∀ k ∈ responseKeys, breaksLine (bytes k) = false := by
  decide +kernel

theorem pieces_ok_iff_clean (op : BclOp) (resp : BclResponse) :
    (∀ p ∈ responsePieces op resp, PieceOk p) ↔ Clean op resp := by
  rw [forall_responsePieces, clean_iff_kvs]
  exact forall₂_congr fun kv hkv =>
    pieceOk_field (responseKeys_clean _ (responseKvs_keys op resp kv hkv)) _

/-! ### Sizes -/

theorem foldlM_bodyAppend_ok :
    ∀ {ps : List Bytes} {body : Bytes}, (∀ p ∈ ps, PieceOk p) →
      body.length + ps.flatten.length < codecBodyMax →
      ps.foldlM bodyAppend body = some (body ++ ps.flatten)
  | [], body, _, _ => by simp
  | p :: ps, body, hps, hlen => by
    rw [flatten_cons, length_append] at hlen
    have hp := hps p mem_cons_self
    have hfirst : bodyAppend body p = some (body ++ p) := by
      rw [bodyAppend, if_neg (by omega), if_neg (not_or.mpr hp)]
    have ih := @foldlM_bodyAppend_ok ps (body ++ p)
      (fun x hx => hps x (mem_cons_of_mem _ hx)) (by rw [length_append]; omega)
    rw [foldlM_cons, hfirst, Option.bind_eq_bind, Option.bind_some, ih, flatten_cons,
      append_assoc]

theorem pieceOk_of_foldlM :
    ∀ {ps : List Bytes} {body body' : Bytes}, ps.foldlM bodyAppend body = some body' →
      ∀ p ∈ ps, PieceOk p
  | [], _, _, _ => fun _ h => absurd h not_mem_nil
  | p :: ps, body, body', h => by
    rw [foldlM_cons] at h
    obtain ⟨b, hb, hrest⟩ := Option.bind_eq_some_iff.mp h
    intro x hx
    rcases mem_cons.mp hx with rfl | hx
    · unfold bodyAppend at hb
      split at hb
      · cases hb
      · split at hb
        · cases hb
        · exact not_or.mp ‹_›
    · exact pieceOk_of_foldlM hrest x hx

theorem length_field (k : String) (v : Bytes) :
    (field k v).length = (bytes k).length + v.length + 2 := by
  have heq : (bytes "=").length = 1 := rfl
  simp only [field, length_append, heq, length_singleton]
  omega

theorem length_kvText_map_le {ι : Type} (k : String) {l : List ι} {g : ι → Bytes} {c : Nat}
    (h : ∀ i ∈ l, (g i).length ≤ c) :
    (kvText (l.map fun i => (k, g i))).length ≤ l.length * ((bytes k).length + c + 2) := by
  induction l with
  | nil => simp [kvText]
  | cons i l ih =>
    have h1 := h i mem_cons_self
    have h2 := ih fun j hj => h j (mem_cons_of_mem _ hj)
    have heq : kvText ((i :: l).map fun i => (k, g i)) =
        field k (g i) ++ kvText (l.map fun i => (k, g i)) := rfl
    rw [heq, length_append, length_cons, Nat.succ_mul, length_field]
    omega

theorem length_inUse_le (count : Nat) : (inUse count).length ≤ bbMaxOptions :=
  (takeWhile_sublist _).length_le.trans (by simp)

theorem length_csv_le {tally : Fin bbMaxOptions → Nat} (h : ∀ i, IsInt32 (tally i)) (count : Nat) :
    (csv tally count).length ≤ 192 := by
  have hcomma : (bytes ",").length = 1 := rfl
  have hentry : ∀ l : List (Fin bbMaxOptions),
      ((l.map fun i => (if i = 0 then [] else bytes ",") ++ fmtInt (tally i)).flatten).length ≤
        l.length * 12 := by
    intro l
    induction l with
    | nil => simp
    | cons i l ih =>
      have h1 := length_fmtInt_le (h i)
      simp only [map_cons, flatten_cons, length_append, length_cons]
      have h2 : (if i = 0 then [] else bytes ",").length ≤ 1 := by
        split <;> simp [hcomma]
      omega
  have hlen : (inUse count).length ≤ 16 := length_inUse_le count
  have := hentry (inUse count)
  unfold csv
  omega

theorem length_rowText_le {h : BbBallotHash} (hr : IntRow h) : (rowText h).length ≤ 100 := by
  have hcomma : (bytes ",").length = 1 := rfl
  have h1 := length_fmtInt_le hr.optionIndex
  have h2 := length_fmtInt_le hr.version
  have h3 := length_fmtInt_le hr.superseded
  have h4 : h.hash.val.length < 65 := h.hash.fits
  simp only [rowText, length_append, hcomma]
  omega

theorem length_kvText_cons (kv : String × Bytes) (kvs : List (String × Bytes)) :
    (kvText (kv :: kvs)).length = (bytes kv.1).length + kv.2.length + 2 + (kvText kvs).length := by
  have heq : kvText (kv :: kvs) = field kv.1 kv.2 ++ kvText kvs := rfl
  rw [heq, length_append, length_field]

variable {resp : BclResponse}

/-- What stands behind the status line always fits, for a response of the
sizes that its arrays have. -/
theorem length_responseKvs_lt (op : BclOp) (hs : Shaped resp) :
    (kvText (responseKvs op resp)).length < 8150 := by
  have hkeys : ∀ k ∈ responseKeys, (bytes k).length ≤ 20 := by decide
  simp only [responseKeys, forall_mem_cons] at hkeys
  have hid : resp.election.id.val.length < 16 := resp.election.id.fits
  have htitle : resp.election.title.val.length < 64 := resp.election.title.fits
  have hopt : ∀ o : OptionName, o.val.length < 32 := fun o => o.fits
  have hnil : kvText [] = [] := rfl
  cases op with
  | opening | closing | publish => simp [responseKvs, kvText]
  | create | adminNextId =>
    simp only [responseKvs]
    split
    · simp only [length_kvText_cons, hnil, length_nil]
      omega
    · simp [kvText]
  | cast | update =>
    have hhash : resp.receipt.hash.val.length < 65 := resp.receipt.hash.fits
    have htime : resp.receipt.issuedAt.val.length < 32 := resp.receipt.issuedAt.fits
    simp only [responseKvs]
    split
    · simp only [length_kvText_cons, hnil, length_nil]
      omega
    · simp [kvText]
  | join =>
    have htime1 : resp.election.openTime.val.length < 32 := resp.election.openTime.fits
    have htime2 : resp.election.closeTime.val.length < 32 := resp.election.closeTime.fits
    have hstate : (bbStateStr resp.election.state).length ≤ 9 := by
      cases resp.election.state <;> decide
    have hbool := length_fmtInt_le (v := boolInt resp.hasPriorBallot) (by
      cases resp.hasPriorBallot <;> decide)
    have hver := length_fmtInt_le hs.priorBallotVersion
    simp only [responseKvs]
    split
    · have hlen : (inUse resp.election.optionCount).length ≤ 16 := length_inUse_le _
      have hoptions := length_kvText_map_le "option" (l := inUse resp.election.optionCount)
        fun i _ => Nat.le_of_lt (hopt (resp.election.options i))
      rw [show (bytes "option").length = 6 by rfl] at hoptions
      simp only [kvText_append, length_kvText_cons, hnil, length_append, length_nil]
      omega
    · simp [kvText]
  | check | adminCheck =>
    have hbool := length_fmtInt_le (v := boolInt resp.found) (by
      cases resp.found <;> decide)
    have hfound := length_fmtInt_le hs.foundOption
    have hname := hopt resp.foundOptionName
    simp only [responseKvs]
    split <;>
    · simp only [length_kvText_cons, hnil, length_nil]
      omega
  | results | adminResults =>
    have hcount : IsInt32 (resp.optionCount : Int) := by
      have := hs.optionCount
      simp only [bbMaxOptions] at this
      unfold IsInt32
      omega
    have hhashes : resp.hashes.length ≤ 64 := hs.hashes
    have hnum1 := length_fmtInt_le hcount
    have hnum2 := length_fmtInt_le (v := resp.hashes.length) (by unfold IsInt32; omega)
    have hcsv := length_csv_le hs.tally resp.optionCount
    have hlen : (inUse resp.optionCount).length ≤ 16 := length_inUse_le _
    have hoptions := length_kvText_map_le "result_option" (l := inUse resp.optionCount)
      fun i _ => Nat.le_of_lt (hopt (resp.options i))
    have hrows := length_kvText_map_le "row" fun h hh => length_rowText_le (hs.rows h hh)
    rw [show (bytes "result_option").length = 13 by rfl] at hoptions
    rw [show (bytes "row").length = 3 by rfl] at hrows
    simp only [responseKvs]
    split <;>
    · simp only [kvText_append, length_kvText_cons, hnil, length_append, length_nil]
      omega

/-! ## Sent and read -/

def sessionMaxFrame : Nat := 64 * 1024

/-- The response is sent as one frame, and the client that parses and
decodes the frame gets its status. -/
def Answered (now : Tm) (op : BclOp) (resp : BclResponse) : Prop :=
  ∃ out http d, bclEncodeResponse now op resp sessionMaxFrame = some out ∧
    htttpParseResponse out = .ok http ∧ bclDecodeResponse http = some d ∧ d.status = resp.status

theorem nameFromResult_isSome (h : st ≠ some .retry) : ∃ name, nameFromResult st = some name := by
  refine Option.isSome_iff_exists.mp ?_
  cases st with
  | none => rfl
  | some e =>
    cases e with
    | retry => exact absurd rfl h
    | _ => rfl

theorem htttpReason_bclHttpStatus (st : Option BbErr) :
    ∃ reason, htttpReason (bclHttpStatus st) = some reason := by
  refine Option.isSome_iff_exists.mp ?_
  cases st with
  | none => rfl
  | some e => cases e <;> decide

/-- A response within its bounds that has a status with a name on the wire
and no text that breaks a line is sent, and parsed with its lines as body. -/
theorem bclEncodeResponse_parse (now : Tm) {op : BclOp} (hs : Shaped resp) (hclean : Clean op resp)
    (hname : nameFromResult resp.status = some name) :
    ∃ out http, bclEncodeResponse now op resp sessionMaxFrame = some out ∧
      htttpParseResponse out = .ok http ∧
      http.body = kvText (("status", name) :: responseKvs op resp) := by
  obtain ⟨-, hline, hnamelen, -⟩ := nameFromResult_some hname
  obtain ⟨reason, hreason⟩ := htttpReason_bclHttpStatus resp.status
  have hlen := length_responseKvs_lt op hs
  have hflat : (field "status" name :: responsePieces op resp).flatten =
      kvText (("status", name) :: responseKvs op resp) := by
    rw [flatten_cons, flatten_responsePieces]
    rfl
  have hstatus : (bytes "status").length = 6 := rfl
  have hsize : (kvText (("status", name) :: responseKvs op resp)).length < codecBodyMax := by
    rw [length_kvText_cons, hstatus]
    unfold codecBodyMax
    dsimp only
    omega
  have hpieces : ∀ p ∈ field "status" name :: responsePieces op resp, PieceOk p := by
    intro p hp
    rcases mem_cons.mp hp with rfl | hp
    · exact (pieceOk_field (by rfl) _).mpr hline
    · exact (pieces_ok_iff_clean op resp).mpr hclean p hp
  have hbody : responseBody op resp =
      some (kvText (("status", name) :: responseKvs op resp)) := by
    rw [responseBody, hname, Option.bind_eq_bind, Option.bind_some,
      foldlM_bodyAppend_ok hpieces (by rw [hflat]; simpa using hsize), hflat, nil_append]
  have hne : kvText (("status", name) :: responseKvs op resp) ≠ [] :=
    ne_nil_of_length_pos (by rw [length_kvText_cons]; omega)
  have hcap : codecBodyMax = 8192 := rfl
  obtain ⟨out, http, hser, hparse, hhttp⟩ := htttpSerializeResponse_parse now hreason hne
    (show _ ≤ sessionMaxFrame by unfold sessionMaxFrame; omega) (by decide)
  refine ⟨out, http, ?_, hparse, hhttp⟩
  rw [bclEncodeResponse, hbody, Option.bind_eq_bind, Option.bind_some, hser]
  rfl

/-- A response within its bounds is answered exactly if its status has a
name on the wire and none of its texts breaks a line. -/
theorem answered_iff (now : Tm) (op : BclOp) (hs : Shaped resp) :
    Answered now op resp ↔ resp.status ≠ some .retry ∧ Clean op resp := by
  constructor
  · rintro ⟨out, -, -, henc, -⟩
    obtain ⟨body, hbody, -⟩ := Option.bind_eq_some_iff.mp henc
    obtain ⟨name, hname, hpieces⟩ := Option.bind_eq_some_iff.mp hbody
    refine ⟨?_, ?_⟩
    · intro hretry
      rw [hretry, show nameFromResult (some .retry) = none by rfl] at hname
      cases hname
    · rw [← pieces_ok_iff_clean]
      exact fun p hp => pieceOk_of_foldlM hpieces p (mem_cons_of_mem _ hp)
  · rintro ⟨hst, hclean⟩
    obtain ⟨name, hname⟩ := nameFromResult_isSome hst
    obtain ⟨out, http, henc, hparse, hbody⟩ := bclEncodeResponse_parse now hs hclean hname
    obtain ⟨d, hdec, hd⟩ := bclDecodeResponse_status hname hbody
      (responseKvs_keys op resp) ((clean_iff_kvs op resp).mp hclean)
    exact ⟨out, http, d, henc, hparse, hdec, hd⟩

end Corestack.Client
