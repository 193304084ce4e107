import Corestack.Client.Answer
import Corestack.Client.Counts
import Corestack.Lib.Slots

/-!
# Responses that come back

A response is encoded, sent as an HTTTP message, parsed and decoded. Each
field the operation reports is one line of the body, the options and the
ballot rows one line each; the tally is one line for all options. Nothing is
lost but a ballot row whose hash is empty or has a comma in it.
-/

namespace Corestack.Client

open List Lib Corestack.Core Db Brain

/-! ## Ballot rows -/

theorem scanInt_fmtInt {v : Int} (hv : IsInt32 v) {rest : Bytes}
    (hrest : ∀ c ∈ rest.head?, isDigit c = false) :
    scanInt (fmtInt v ++ rest) = some (v, rest) := by
  have hbounds := hv
  unfold IsInt32 at hbounds
  have hne : rest ≠ fmtInt v ++ rest := by
    intro h
    have hlen := congrArg List.length h
    rw [length_append] at hlen
    exact fmtInt_ne_nil v (eq_nil_of_length_eq_zero (by omega))
  simp only [scanInt, strtol_fmtInt_append (by omega : -(2 ^ 63) < v) (by omega) hrest, if_neg hne,
    toInt32_eq_self hv]

/-- A hash the decoder can read in a row. -/
structure ReadableHash (h : Hash) : Prop where
  ne_nil : h.val ≠ []
  noComma : 44 ∉ h.val

theorem scanRow_rowText {h : BbBallotHash} (hr : IntRow h) (hh : ReadableHash h.hash) :
    scanRow (rowText h) = some h := by
  have hcomma : bytes "," = [44] := rfl
  have hrow : rowText h = h.hash.val ++ 44 :: (fmtInt h.optionIndex ++ 44 ::
      (fmtInt h.version ++ 44 :: (fmtInt h.superseded ++ []))) := by
    simp [rowText, hcomma]
  have htake : (rowText h).takeWhile (· ≠ 44) = h.hash.val := by
    have hin : ∀ c ∈ h.hash.val, decide (c ≠ 44) = true := by
      intro c hc
      refine decide_eq_true ?_
      rintro rfl
      exact hh.noComma hc
    rw [hrow, takeWhile_append_of_pos hin]
    simp
  have hlen : h.hash.val.length ≤ 64 := Nat.le_of_lt_succ h.hash.fits
  have hdigit : isDigit 44 = false := by decide
  rw [scanRow, htake, take_of_length_le hlen]
  simp only [if_neg hh.ne_nil]
  rw [hrow, drop_left]
  simp only [@scanInt_fmtInt _ hr.optionIndex (44 :: _) (by simpa using hdigit),
    @scanInt_fmtInt _ hr.version (44 :: _) (by simpa using hdigit),
    @scanInt_fmtInt _ hr.superseded [] (by simp), Option.bind_eq_bind, Option.bind_some,
    CStr.copy_self]
  rfl

/-! ## The tally -/

variable {count : Nat}

theorem inUse_eq_take (hcount : count ≤ bbMaxOptions) :
    inUse count = (List.finRange bbMaxOptions).take count := by
  have hall : ∀ n : Fin (bbMaxOptions + 1), inUse n = (List.finRange bbMaxOptions).take n := by
    decide
  exact hall ⟨count, Nat.lt_succ_of_le hcount⟩

def tallyEntries (tally : Fin bbMaxOptions → Nat) (count : Nat) : List Bytes :=
  (inUse count).map fun i => fmtInt (tally i)

theorem flatten_commas (f : Fin bbMaxOptions → Bytes) :
    ∀ l : List (Fin bbMaxOptions), 0 ∉ l → ∀ p,
      p ++ (l.map fun i => (if i = 0 then [] else bytes ",") ++ f i).flatten =
        join 44 (p :: l.map f)
  | [], _, p => by simp [join]
  | i :: l, h0, p => by
    have hi : i ≠ 0 := fun h => h0 (h ▸ mem_cons_self)
    have hcomma : bytes "," = [44] := by decide
    have ih := flatten_commas f l (fun h => h0 (mem_cons_of_mem _ h)) (f i)
    simp only [map_cons, flatten_cons, if_neg hi, hcomma, join] at ih ⊢
    rw [← ih]
    simp

theorem csv_eq_join (tally : Fin bbMaxOptions → Nat) (hpos : 0 < count) :
    csv tally count = join 44 (tallyEntries tally count) := by
  have hfirst : ∃ l : List (Fin bbMaxOptions), inUse count = 0 :: l ∧ 0 ∉ l := by
    have hzero : ((0 : Fin bbMaxOptions) : Nat) < count := hpos
    have hrange : List.finRange bbMaxOptions = 0 :: (List.finRange bbMaxOptions).tail := by
      rfl
    have htail : 0 ∉ (List.finRange bbMaxOptions).tail := by decide
    rw [inUse, hrange, takeWhile_cons_of_pos
      (p := fun i : Fin bbMaxOptions => decide ((i : Nat) < count)) (decide_eq_true hzero)]
    exact ⟨_, rfl, fun h => htail ((takeWhile_sublist _).subset h)⟩
  obtain ⟨l, hl, h0⟩ := hfirst
  rw [csv, tallyEntries, hl]
  exact flatten_commas _ l h0 _

variable {i : Fin bbMaxOptions}

theorem readCsv_csv {tally : Fin bbMaxOptions → Nat} (htally : ∀ i, IsInt32 (tally i))
    (hpos : 0 < count) (hcount : count ≤ bbMaxOptions) (t : Fin bbMaxOptions → Int)
    (hi : (i : Nat) < count) : readCsv t (csv tally count) i = tally i := by
  have hentries : tallyEntries tally count =
      ((List.finRange bbMaxOptions).take count).map fun i => fmtInt (tally i) := by
    rw [tallyEntries, inUse_eq_take hcount]
  have hget : (tallyEntries tally count)[(i : Nat)]? = some (fmtInt (tally i)) := by
    rw [hentries, List.getElem?_map, List.getElem?_take_of_lt hi]
    simp
  have hne : tallyEntries tally count ≠ [] := by
    intro h
    rw [h] at hget
    cases hget
  have hfmt : ∀ e ∈ tallyEntries tally count, 44 ∉ e ∧ e ≠ [] := by
    intro e he
    obtain ⟨j, -, rfl⟩ := mem_map.mp he
    exact ⟨notMem_fmtInt rfl (by decide), fmtInt_ne_nil _⟩
  have hsplit : split 44 (csv tally count) = tallyEntries tally count := by
    rw [csv_eq_join tally hpos, split_join hne fun e he => (hfmt e he).1]
  have hcsv : csv tally count ≠ [] := by
    intro h
    rw [h] at hsplit
    rw [← hsplit] at hfmt
    exact (hfmt [] (by simp [split])).2 rfl
  have hlast : (tallyEntries tally count).getLast? ≠ some [] := fun h =>
    (hfmt [] (mem_of_getLast? h)).2 rfl
  simp only [readCsv, if_neg hcsv, hsplit, if_neg hlast, Fin.getElem?_fin, hget,
    atoi_fmtInt (htally i)]

/-! ## Lines that repeat -/

theorem responseKv_options :
    ∀ (vs : List OptionName) (c : RespCtx),
      c.resp.election.optionCount + vs.length ≤ bbMaxOptions →
      (vs.map fun v => (bytes "option", v.val)).foldl responseKv c =
        { c with resp := { c.resp with election := { c.resp.election with
          options := fill c.resp.election.options c.resp.election.optionCount vs
          optionCount := c.resp.election.optionCount + vs.length } } }
  | [], c, _ => by simp
  | v :: vs, c, hroom => by
    rw [length_cons] at hroom
    have hstep : responseKv c (bytes "option", v.val) =
        if c.resp.election.optionCount < bbMaxOptions then
          { c with resp := { c.resp with election := { c.resp.election with
            options := fun i => if (i : Nat) = c.resp.election.optionCount then
              CStr.copy _ v.val else c.resp.election.options i
            optionCount := c.resp.election.optionCount + 1 } } }
        else c := rfl
    rw [map_cons, foldl_cons, hstep, if_pos (by omega), CStr.copy_self,
      responseKv_options vs _ (by dsimp only; omega)]
    simp only [fill_cons, length_cons, Nat.add_assoc, Nat.add_comm 1]

theorem responseKv_resultOptions :
    ∀ (vs : List OptionName) (c : RespCtx), c.resultOptI + vs.length ≤ bbMaxOptions →
      (vs.map fun v => (bytes "result_option", v.val)).foldl responseKv c =
        { c with
          resp := { c.resp with options := fill c.resp.options c.resultOptI vs }
          resultOptI := c.resultOptI + vs.length }
  | [], c, _ => by simp
  | v :: vs, c, hroom => by
    rw [length_cons] at hroom
    rw [map_cons, foldl_cons, responseKv_resultOption_eq, if_pos (by omega), CStr.copy_self,
      responseKv_resultOptions vs _ (by dsimp only; omega)]
    simp only [fill_cons, length_cons, Nat.add_assoc, Nat.add_comm 1]

theorem responseKv_rows :
    ∀ (rows : List BbBallotHash) (c : RespCtx), c.rowI + rows.length ≤ bbMaxVoters →
      (∀ r ∈ rows, IntRow r ∧ ReadableHash r.hash) →
      (rows.map fun r => (bytes "row", rowText r)).foldl responseKv c =
        { c with
          resp := { c.resp with hashes := fill c.resp.hashes c.rowI rows }
          rowI := c.rowI + rows.length }
  | [], c, _, _ => by simp
  | r :: rows, c, hroom, hrows => by
    rw [length_cons] at hroom
    obtain ⟨hint, hhash⟩ := hrows r (by simp)
    rw [map_cons, foldl_cons, responseKv_row_eq, if_pos (by omega), scanRow_rowText hint hhash,
      responseKv_rows rows _ (by dsimp only; omega) fun x hx => hrows x (by simp [hx])]
    simp only [fill_cons, length_cons, Nat.add_assoc, Nat.add_comm 1]

/-! ## The round trip -/

/-- What was received says what was sent, in the fields the operation
reports. Arrays are compared up to their counts. -/
def SameResponse (op : BclOp) (resp : BclResponse) (d : BclDecoded) : Prop :=
  d.status = resp.status ∧
    match op with
    | .create | .adminNextId => d.election.id = resp.election.id
    | .opening | .closing | .publish => True
    | .join =>
      d.election.id = resp.election.id ∧ d.election.title = resp.election.title ∧
      d.election.state = resp.election.state ∧ d.election.openTime = resp.election.openTime ∧
      d.election.closeTime = resp.election.closeTime ∧
      d.election.optionCount = resp.election.optionCount ∧
      (∀ i : Fin bbMaxOptions, (i : Nat) < resp.election.optionCount →
        d.election.options i = resp.election.options i) ∧
      d.hasPriorBallot = boolInt resp.hasPriorBallot ∧
      d.priorBallotVersion = resp.priorBallotVersion
    | .cast | .update => d.receipt = resp.receipt
    | .results | .adminResults =>
      d.election.id = resp.election.id ∧ d.election.title = resp.election.title ∧
      d.optionCount = resp.optionCount ∧
      (∀ i : Fin bbMaxOptions, (i : Nat) < resp.optionCount →
        d.options i = resp.options i ∧ d.tally i = resp.tally i) ∧
      d.hashCount = resp.hashes.length ∧
      ∀ (i : Fin bbMaxVoters) (h : (i : Nat) < resp.hashes.length),
        d.hashes i = resp.hashes[(i : Nat)]
    | .check | .adminCheck =>
      d.found = boolInt resp.found ∧ d.foundOption = resp.foundOption ∧
      d.foundOptionName = resp.foundOptionName

/-- The response is sent, and the client that parses and decodes it gets
what it says. -/
def ComesBack (now : Tm) (op : BclOp) (resp : BclResponse) : Prop :=
  ∃ out http d, bclEncodeResponse now op resp sessionMaxFrame = some out ∧
    htttpParseResponse out = .ok http ∧ bclDecodeResponse http = some d ∧ SameResponse op resp d

/-- A response to a request that was granted, as the handlers fill it. -/
structure Granted (op : BclOp) (resp : BclResponse) : Prop where
  status : resp.status = none
  shaped : Shaped resp
  clean : Clean op resp
  named : op = .join → resp.election.id.val ≠ []
  options : op = .join → resp.election.optionCount ≤ bbMaxOptions
  receipt : op = .cast ∨ op = .update → resp.receipt.hash.val ≠ []
  hashes : ∀ r ∈ resp.hashes, ReadableHash r.hash
  found : op = .check ∨ op = .adminCheck → resp.found = true

def granted : RespCtx := { (default : RespCtx) with statusValid := true }

/-- The lines of a response behind the status as they reach the decoder. -/
def responseArrived (op : BclOp) (resp : BclResponse) : List (Bytes × Bytes) :=
  (responseKvs op resp).map fun kv => (bytes kv.1, (CStr.copy 320 kv.2).val)

variable {op : BclOp} {resp : BclResponse}

theorem comesBack_of_fold {now : Tm} (hg : Granted op resp)
    (hvalid : ((responseArrived op resp).foldl responseKv granted).statusValid = true)
    (hsame : SameResponse op resp
      (corrected ((responseArrived op resp).foldl responseKv granted))) :
    ComesBack now op resp := by
  have hname : nameFromResult resp.status = some (bytes "BB_OK") := by
    rw [hg.status]
    rfl
  obtain ⟨out, http, henc, hparse, hbody⟩ := bclEncodeResponse_parse now hg.shaped hg.clean hname
  have hkvs := bodyKvs_response hname (responseKvs_keys op resp)
    ((clean_iff_kvs op resp).mp hg.clean)
  have hfirst : responseKv default (bytes "status", bytes "BB_OK") = granted := by
    rfl
  have hfold : (bodyKvs http.body).foldl responseKv default =
      (responseArrived op resp).foldl responseKv granted := by
    rw [hbody, hkvs, foldl_cons, hfirst]
    rfl
  refine ⟨out, http, _, henc, hparse, ?_, hsame⟩
  rw [bclDecodeResponse_eq, bclDecodeInto, hfold]
  exact if_pos hvalid

theorem copy_number {v : Int} (hv : IsInt32 v) : (CStr.copy 320 (fmtInt v)).val = fmtInt v :=
  CStr.copy_val (lt_of_le_of_lt (length_fmtInt_le hv) (by decide))
    (notMem_fmtInt rfl (by decide))

theorem isInt32_boolInt (b : Bool) : IsInt32 (boolInt b) := by cases b <;> decide

theorem fill_inUse {α : Type} (t f : Fin bbMaxOptions → α) (hcount : count ≤ bbMaxOptions)
    (hi : (i : Nat) < count) : fill t 0 ((inUse count).map f) i = f i := by
  rw [fill_zero _ (by rw [inUse_eq_take hcount]; simpa using hi)]
  simp [inUse_eq_take hcount]

theorem length_inUse (hcount : count ≤ bbMaxOptions) : (inUse count).length = count := by
  rw [inUse_eq_take hcount, length_take, length_finRange]
  omega

section Ops

variable {resp : BclResponse}

theorem join_back (hg : Granted .join resp) :
    let c := (responseArrived .join resp).foldl responseKv granted
    c.statusValid = true ∧ SameResponse .join resp (corrected c) := by
  have hid := copy_value resp.election.id (by decide)
  have htitle := copy_value resp.election.title (by decide)
  have hopen := copy_value resp.election.openTime (by decide)
  have hclose := copy_value resp.election.closeTime (by decide)
  have hprior := copy_number (isInt32_boolInt resp.hasPriorBallot)
  have hversion := copy_number hg.shaped.priorBallotVersion
  have hstate : (CStr.copy 320 (bbStateStr resp.election.state)).val =
      bbStateStr resp.election.state := by
    cases resp.election.state <;> rfl
  have harrived : responseArrived .join resp =
      [(bytes "election_id", resp.election.id.val), (bytes "title", resp.election.title.val),
        (bytes "state", bbStateStr resp.election.state),
        (bytes "open_time", resp.election.openTime.val),
        (bytes "close_time", resp.election.closeTime.val),
        (bytes "has_prior_ballot", fmtInt (boolInt resp.hasPriorBallot)),
        (bytes "prior_ballot_version", fmtInt resp.priorBallotVersion)] ++
      ((inUse resp.election.optionCount).map resp.election.options).map
        fun v => (bytes "option", v.val) := by
    simp only [responseArrived, responseKvs, if_pos (hg.named rfl), map_append, map_cons,
      map_nil, map_map, Function.comp_def, hid, htitle, hopen, hclose, hprior, hversion,
      hstate, copy_value _ (by decide : bbOptionLen ≤ 320)]
  have hscalars : ∀ st, [(bytes "election_id", resp.election.id.val),
      (bytes "title", resp.election.title.val), (bytes "state", bbStateStr st),
      (bytes "open_time", resp.election.openTime.val),
      (bytes "close_time", resp.election.closeTime.val),
      (bytes "has_prior_ballot", fmtInt (boolInt resp.hasPriorBallot)),
      (bytes "prior_ballot_version", fmtInt resp.priorBallotVersion)].foldl responseKv granted =
        { granted with resp := { granted.resp with
          election := { (default : BbElection) with
            id := CStr.copy _ resp.election.id.val
            title := CStr.copy _ resp.election.title.val
            state := st
            openTime := CStr.copy _ resp.election.openTime.val
            closeTime := CStr.copy _ resp.election.closeTime.val }
          hasPriorBallot := atoi (fmtInt (boolInt resp.hasPriorBallot))
          priorBallotVersion := atoi (fmtInt resp.priorBallotVersion) } } := by
    intro st
    cases st <;> rfl
  have hcount := hg.options rfl
  rw [harrived, foldl_append, hscalars, responseKv_options]
  · simp only [CStr.copy_self]
    refine ⟨rfl, hg.status.symm, rfl, rfl, rfl, rfl, rfl, ?_, fun i hi => ?_, ?_, ?_⟩
    · exact (Nat.zero_add _).trans ((length_map _).trans (length_inUse hcount))
    · exact fill_inUse _ _ hcount hi
    · exact atoi_fmtInt (isInt32_boolInt _)
    · exact atoi_fmtInt hg.shaped.priorBallotVersion
  · show 0 + _ ≤ _
    rw [Nat.zero_add, length_map, length_inUse hcount]
    exact hcount

variable {op : BclOp}

theorem id_back (hop : op = .create ∨ op = .adminNextId) (hg : Granted op resp) :
    let c := (responseArrived op resp).foldl responseKv granted
    c.statusValid = true ∧ SameResponse op resp (corrected c) := by
  have hid := copy_value resp.election.id (by decide)
  have harrived : responseArrived op resp = if resp.election.id.val ≠ [] then
      [(bytes "election_id", resp.election.id.val)] else [] := by
    rcases hop with rfl | rfl <;>
    · simp only [responseArrived, responseKvs]
      split <;> simp [hid]
  have hsame : ∀ d : BclDecoded, d.status = none → d.election.id = resp.election.id →
      SameResponse op resp d := by
    intro d hst heq
    rcases hop with rfl | rfl <;> exact ⟨hst.trans hg.status.symm, heq⟩
  rw [harrived]
  split
  · exact ⟨rfl, hsame _ rfl (CStr.copy_self _)⟩
  next hempty => exact ⟨rfl, hsame _ rfl (CStr.ext (not_not.mp hempty).symm)⟩

theorem receipt_back (hop : op = .cast ∨ op = .update) (hg : Granted op resp) :
    let c := (responseArrived op resp).foldl responseKv granted
    c.statusValid = true ∧ SameResponse op resp (corrected c) := by
  have hhash := copy_value resp.receipt.hash (by decide)
  have htime := copy_value resp.receipt.issuedAt (by decide)
  have harrived : responseArrived op resp = [(bytes "hash", resp.receipt.hash.val),
      (bytes "issued_at", resp.receipt.issuedAt.val)] := by
    rcases hop with rfl | rfl <;>
    · simp only [responseArrived, responseKvs, if_pos (hg.receipt (by simp)), map_cons,
        map_nil, hhash, htime]
  have hfold : [(bytes "hash", resp.receipt.hash.val),
      (bytes "issued_at", resp.receipt.issuedAt.val)].foldl responseKv granted =
        { granted with resp := { granted.resp with receipt :=
          ⟨CStr.copy _ resp.receipt.hash.val, CStr.copy _ resp.receipt.issuedAt.val⟩ } } := rfl
  rw [harrived, hfold, CStr.copy_self, CStr.copy_self]
  refine ⟨rfl, ?_⟩
  rcases hop with rfl | rfl <;> exact ⟨hg.status.symm, rfl⟩

theorem check_back (hop : op = .check ∨ op = .adminCheck) (hg : Granted op resp) :
    let c := (responseArrived op resp).foldl responseKv granted
    c.statusValid = true ∧ SameResponse op resp (corrected c) := by
  have hfound := hg.found hop
  have hbool := copy_number (isInt32_boolInt true)
  have hoption := copy_number hg.shaped.foundOption
  have hname := copy_value resp.foundOptionName (by decide)
  have harrived : responseArrived op resp = [(bytes "found", fmtInt (boolInt true)),
      (bytes "found_option", fmtInt resp.foundOption),
      (bytes "found_option_name", resp.foundOptionName.val)] := by
    rcases hop with rfl | rfl <;>
    · simp only [responseArrived, responseKvs, hfound, if_true, map_cons, map_nil, hbool,
        hoption, hname]
  have hfold : [(bytes "found", fmtInt (boolInt true)),
      (bytes "found_option", fmtInt resp.foundOption),
      (bytes "found_option_name", resp.foundOptionName.val)].foldl responseKv granted =
        { granted with resp := { granted.resp with
          found := atoi (fmtInt (boolInt true))
          foundOption := atoi (fmtInt resp.foundOption)
          foundOptionName := CStr.copy _ resp.foundOptionName.val } } := rfl
  rw [harrived, hfold, CStr.copy_self, atoi_fmtInt (isInt32_boolInt true),
    atoi_fmtInt hg.shaped.foundOption]
  refine ⟨rfl, ?_⟩
  rcases hop with rfl | rfl <;> exact ⟨hg.status.symm, by rw [hfound]; rfl, rfl, rfl⟩

/-! ### Results -/

theorem copy_csv (hg : Shaped resp) :
    (CStr.copy 320 (csv resp.tally resp.optionCount)).val = csv resp.tally resp.optionCount := by
  refine CStr.copy_val (lt_of_le_of_lt (length_csv_le hg.tally _) (by decide)) fun h0 => ?_
  obtain ⟨e, he, h0⟩ := mem_flatten.mp h0
  obtain ⟨i, -, rfl⟩ := mem_map.mp he
  rcases mem_append.mp h0 with h0 | h0
  · split at h0
    · cases h0
    · exact absurd h0 (by decide)
  · exact notMem_fmtInt rfl (by decide) h0

theorem copy_rowText {r : BbBallotHash} (hr : IntRow r) :
    (CStr.copy 320 (rowText r)).val = rowText r := by
  have hcomma : 0 ∉ bytes "," := by decide
  have hnum : ∀ v : Int, 0 ∉ fmtInt v := fun v => notMem_fmtInt rfl (by decide)
  refine CStr.copy_val (lt_of_le_of_lt (length_rowText_le hr) (by decide)) fun h0 => ?_
  simp only [rowText, mem_append, r.hash.noNul, hcomma, hnum, or_self] at h0

def optionLines (resp : BclResponse) : List (Bytes × Bytes) :=
  if 0 < resp.optionCount then
    (bytes "tally", csv resp.tally resp.optionCount) ::
      ((inUse resp.optionCount).map resp.options).map fun v => (bytes "result_option", v.val)
  else []

theorem resultsArrived (hop : op = .results ∨ op = .adminResults) (hg : Granted op resp) :
    responseArrived op resp =
      [(bytes "election_id", resp.election.id.val), (bytes "title", resp.election.title.val),
        (bytes "tally_count", fmtInt resp.optionCount)] ++ optionLines resp ++
      [(bytes "hash_count", fmtInt resp.hashes.length)] ++
      resp.hashes.map fun r => (bytes "row", rowText r) := by
  have hid := copy_value resp.election.id (by decide)
  have htitle := copy_value resp.election.title (by decide)
  have hcount : IsInt32 resp.optionCount := by
    have h : resp.optionCount ≤ 16 := hg.shaped.optionCount
    unfold IsInt32
    omega
  have hlength : IsInt32 resp.hashes.length := by
    have h : resp.hashes.length ≤ 64 := hg.shaped.hashes
    unfold IsInt32
    omega
  have hlines : ((if 0 < resp.optionCount then
      ("tally", csv resp.tally resp.optionCount) ::
        (inUse resp.optionCount).map fun i => ("result_option", (resp.options i).val)
      else []).map fun kv => (bytes kv.1, (CStr.copy 320 kv.2).val)) = optionLines resp := by
    unfold optionLines
    split
    · simp [copy_csv hg.shaped, Function.comp_def, copy_value _ (by decide : bbOptionLen ≤ 320)]
    · rfl
  have hrows : (resp.hashes.map fun h => ("row", rowText h)).map
      (fun kv => (bytes kv.1, (CStr.copy 320 kv.2).val)) =
      resp.hashes.map fun r => (bytes "row", rowText r) := by
    rw [map_map]
    exact map_congr_left fun r hr => by
      simp only [Function.comp_apply, copy_rowText (hg.shaped.rows r hr)]
  have hkvs : responseArrived op resp = ([("election_id", resp.election.id.val),
      ("title", resp.election.title.val), ("tally_count", fmtInt resp.optionCount)] ++
      (if 0 < resp.optionCount then
        ("tally", csv resp.tally resp.optionCount) ::
          (inUse resp.optionCount).map fun i => ("result_option", (resp.options i).val)
      else []) ++ [("hash_count", fmtInt resp.hashes.length)] ++
      resp.hashes.map fun h => ("row", rowText h)).map
        fun kv => (bytes kv.1, (CStr.copy 320 kv.2).val) := by
    rcases hop with rfl | rfl <;> rfl
  rw [hkvs, map_append, map_append, map_append, hlines, hrows]
  simp only [map_cons, map_nil, hid, htitle, copy_number hcount, copy_number hlength]

theorem optionLines_fold (hg : Shaped resp) (r : BclDecoded) :
    ∃ tally options,
      (optionLines resp).foldl responseKv ⟨r, 0, 0, true⟩ =
        ⟨{ r with tally, options }, 0, resp.optionCount, true⟩ ∧
      ∀ i : Fin bbMaxOptions, (i : Nat) < resp.optionCount →
        options i = resp.options i ∧ tally i = resp.tally i := by
  by_cases hpos : 0 < resp.optionCount
  · have hcount := hg.optionCount
    have hstep : responseKv ⟨r, 0, 0, true⟩
        (bytes "tally", csv resp.tally resp.optionCount) =
        ⟨{ r with tally := readCsv r.tally (csv resp.tally resp.optionCount) }, 0, 0, true⟩ := rfl
    refine ⟨_, _, ?_, fun i hi => ⟨fill_inUse r.options _ hcount hi,
      readCsv_csv hg.tally hpos hcount r.tally hi⟩⟩
    rw [optionLines, if_pos hpos, foldl_cons, hstep, responseKv_resultOptions]
    · simp only [length_map, length_inUse hcount, Nat.zero_add]
    · rw [Nat.zero_add, length_map, length_inUse hcount]
      exact hcount
  · refine ⟨r.tally, r.options, ?_, fun i hi => absurd hi (by omega)⟩
    rw [optionLines, if_neg hpos, Nat.eq_zero_of_not_pos hpos]
    rfl

theorem results_back (hop : op = .results ∨ op = .adminResults) (hg : Granted op resp) :
    let c := (responseArrived op resp).foldl responseKv granted
    c.statusValid = true ∧ SameResponse op resp (corrected c) := by
  have hcount : resp.optionCount ≤ 16 := hg.shaped.optionCount
  have hlength : resp.hashes.length ≤ 64 := hg.shaped.hashes
  have hoptionMax : bbMaxOptions = 16 := rfl
  have hvoterMax : bbMaxVoters = 64 := rfl
  have hnumCount : atoi (fmtInt resp.optionCount) = resp.optionCount :=
    atoi_fmtInt (by unfold IsInt32; omega)
  have hnumLength : atoi (fmtInt resp.hashes.length) = resp.hashes.length :=
    atoi_fmtInt (by unfold IsInt32; omega)
  have hfirst : [(bytes "election_id", resp.election.id.val),
      (bytes "title", resp.election.title.val),
      (bytes "tally_count", fmtInt resp.optionCount)].foldl responseKv granted =
        ⟨{ (default : BclDecoded) with
          election := { (default : BbElection) with
            id := CStr.copy _ resp.election.id.val
            title := CStr.copy _ resp.election.title.val }
          optionCount := atoi (fmtInt resp.optionCount) }, 0, 0, true⟩ := rfl
  have hmiddle : ∀ r n, [(bytes "hash_count", fmtInt resp.hashes.length)].foldl responseKv
      ⟨r, 0, n, true⟩ = ⟨{ r with hashCount := atoi (fmtInt resp.hashes.length) }, 0, n, true⟩ :=
    fun _ _ => rfl
  rw [resultsArrived hop hg, foldl_append, foldl_append, foldl_append, hfirst,
    CStr.copy_self, CStr.copy_self, hnumCount]
  obtain ⟨tally, options, hfold, hoptions⟩ := optionLines_fold hg.shaped
    { (default : BclDecoded) with
      election := { (default : BbElection) with
        id := resp.election.id, title := resp.election.title }
      optionCount := resp.optionCount }
  rw [hfold, hmiddle, hnumLength, responseKv_rows _ _ (by dsimp only; omega)
    fun r hr => ⟨hg.shaped.rows r hr, hg.hashes r hr⟩]
  refine ⟨rfl, ?_⟩
  rw [corrected_eq, corrected_hashCount, corrected_optionCount]
  dsimp only
  rw [if_neg (by omega), if_neg (by omega)]
  have hrows : ∀ (i : Fin bbMaxVoters) (h : (i : Nat) < resp.hashes.length),
      fill (default : BclDecoded).hashes 0 resp.hashes i = resp.hashes[(i : Nat)] :=
    fun i h => fill_zero _ h
  rcases hop with rfl | rfl <;>
    exact ⟨hg.status.symm, rfl, rfl, rfl, hoptions, rfl, hrows⟩

end Ops

theorem Granted.comesBack (hg : Granted op resp) (now : Tm) : ComesBack now op resp := by
  have hback : let c := (responseArrived op resp).foldl responseKv granted
      c.statusValid = true ∧ SameResponse op resp (corrected c) := by
    cases op with
    | create => exact id_back (.inl rfl) hg
    | adminNextId => exact id_back (.inr rfl) hg
    | opening | closing | publish => exact ⟨rfl, hg.status.symm, trivial⟩
    | join => exact join_back hg
    | cast => exact receipt_back (.inl rfl) hg
    | update => exact receipt_back (.inr rfl) hg
    | results => exact results_back (.inl rfl) hg
    | adminResults => exact results_back (.inr rfl) hg
    | check => exact check_back (.inl rfl) hg
    | adminCheck => exact check_back (.inr rfl) hg
  exact comesBack_of_fold hg hback.1 hback.2

end Corestack.Client
