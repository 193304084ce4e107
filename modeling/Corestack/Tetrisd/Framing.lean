import Corestack.Tetrisd.AdminThread

/-!
# Framing of admin messages

The records keep their boundaries, no live session is cut off because its
message is on the way, and a session that blocked hears nothing more and is
dropped before the next `poll`: all of this as long as events are smooth
(`framing_intact`). Without that each part fails.
-/

namespace Corestack.Tetrisd

open List Lib

/-- If no write blocks, no session is noted as wedged. -/
theorem wedged_run (seeds : Nat → Nat) (s : State) (c : Call) :
    (Admin.roomModule seeds s c).wedged = s.wedged := by
  refine State.Moves.keeps (c.moves (Admin.okEnv seeds) s) fun h => ?_
  cases h with
  | client | room | seed | send => rfl
  | init =>
    unfold State.ensureInit
    split <;> rfl

namespace State

variable {s : State} {fd : Int}

theorem wedged_subset_markWedged : s.wedged ⊆ (s.markWedged fd).wedged := by
  intro k hk
  unfold markWedged
  split
  · exact hk
  split
  · exact mem_append_left _ hk
  · exact hk

theorem mem_markWedged (h : fd ∈ s.wedged ∨ s.wedged.length < wedgedMax) :
    fd ∈ (s.markWedged fd).wedged := by
  unfold markWedged
  split
  next hin => exact hin
  next hout => simp [h.resolve_left hout]

end State

/-! ## The invariant -/

def Task.reads : Task → Option Int
  | .read fd => some fd
  | _ => none

theorem Task.reads_eq_some {t : Task} {fd : Int} : t.reads = some fd ↔ t = .read fd := by
  cases t <;> simp [reads]

namespace Admin

variable (L : Layout)

/-- A connection in order, for what the thread is about to do. -/
structure ConnOk (s : Admin) (fd : Int) (c : Conn) : Prop where
  up : c.up.Framed L.size
  down : c.down.Framed L.size
  unbroken : c.up.torn = false
  torn : c.down.torn = true → c.blocked = true ∨ c.alive = false
  patient : c.cutOff = false
  silent : c.extra = false
  /-- Between two writes nothing is left of a record. -/
  idle : (∀ m, s.job ≠ some (.writing fd m)) → c.down.left = []
  full : fd ∈ s.fds → c.blocked = true → c.drained = false
  /-- A session that blocked is going to be dropped. -/
  doomed : fd ∈ s.fds → c.blocked = true → fd ∈ s.room.wedged ∨ Task.close fd ∈ s.todo
  /-- The record that is or will be read from a live session is there. -/
  whole : s.job = some (.reading fd) ∨ Task.read fd ∈ s.todo → c.alive = true →
    L.size ≤ c.up.got.length + c.up.stream.length

structure Inv (s : Admin) : Prop where
  conns : ∀ fd, ConnOk L s fd (s.conns fd)
  target : ∀ fd m, s.job = some (.writing fd m) →
    fd ∈ s.fds ∧ (m = false → Task.close fd ∈ s.todo)
  reads : (s.todo.filterMap Task.reads).Nodup
  once : ∀ fd, s.job = some (.reading fd) → Task.read fd ∉ s.todo
  ends : s.job = none ∧ s.todo = [] ∧ s.room.wedged = [] ∨ ∃ k b, s.todo = k ++ [.take b]
  nodup : s.fds.Nodup

variable {L} {seeds : Nat → Nat} {s : Admin} {fd : Int} {c : Conn}

@[simp] theorem setConn_self : (s.setConn fd c).conns fd = c := by simp [setConn]

theorem setConn_of_ne {fd' : Int} (h : fd' ≠ fd) : (s.setConn fd c).conns fd' = s.conns fd' := by
  simp [setConn, h]

theorem connOk_unused {alive : Bool}
    (hread : ¬ (s.job = some (.reading fd) ∨ Task.read fd ∈ s.todo)) :
    ConnOk L s fd { Conn.fresh with alive := alive } where
  up := Pipe.framed_empty L.pos
  down := Pipe.framed_empty L.pos
  unbroken := rfl
  torn := fun h => by cases h
  patient := rfl
  silent := rfl
  idle := fun _ => rfl
  full := fun _ h => by cases h
  doomed := fun _ h => by cases h
  whole := fun h => absurd h hread

theorem inv_boot : Inv L boot where
  conns := fun _ => connOk_unused (by simp [boot])
  target := fun _ _ h => by cases h
  reads := nodup_nil
  once := fun _ h => by cases h
  ends := .inl ⟨rfl, rfl, rfl⟩
  nodup := nodup_nil

theorem Inv.intact (h : Inv L s) : s.Intact where
  up := fun fd => (h.conns fd).up.handed_prefix
  down := fun fd => (h.conns fd).down.handed_prefix
  patient := fun fd => (h.conns fd).patient
  silent := fun fd => (h.conns fd).silent
  dropped := by
    intro _ htodo fd hfd
    by_contra hb
    rw [Bool.not_eq_false] at hb
    rcases h.ends with ⟨-, -, hw⟩ | ⟨k, b, heq⟩
    · simpa [hw, htodo] using (h.conns fd).doomed hfd hb
    · rw [htodo] at heq
      simp at heq

theorem Inv.setConn (h : Inv L s) (hc : ConnOk L s fd c) : Inv L (s.setConn fd c) :=
  { h with
    conns := fun k => by
      by_cases hk : k = fd
      · subst hk
        rw [setConn_self]
        exact { hc with }
      · rw [setConn_of_ne hk]
        exact { h.conns k with } }

/-! ## Sessions -/

section Sessions

variable (h : Inv L s)
include h

theorem inv_begins {r : Bytes} (hleft : (s.conns fd).up.left = []) (hr : r.length = L.size) :
    Inv L (s.setConn fd { s.conns fd with up := (s.conns fd).up.start r }) :=
  h.setConn { h.conns fd with up := (h.conns fd).up.start hleft hr }

theorem inv_pushes {n : Nat} (hn : 0 < n) (hle : n ≤ (s.conns fd).up.left.length) :
    Inv L (s.setConn fd { s.conns fd with up := (s.conns fd).up.push n }) := by
  have hc := h.conns fd
  have hpush : ((s.conns fd).up.push n).torn = (s.conns fd).up.torn ∧
      ((s.conns fd).up.push n).got = (s.conns fd).up.got ∧
      (s.conns fd).up.stream.length ≤ ((s.conns fd).up.push n).stream.length := by
    unfold Pipe.push
    dsimp only
    split <;> simp
  refine h.setConn { hc with
    up := hc.up.push hc.unbroken hn hle
    unbroken := hpush.1.trans hc.unbroken
    whole := fun hr ha => ?_ }
  have := hc.whole hr ha
  dsimp only
  rw [hpush.2.1]
  omega

theorem inv_pulls {n : Nat} (hle : n ≤ L.size - (s.conns fd).down.got.length)
    (hsmooth : fd ∈ s.fds → (s.conns fd).blocked = false) :
    Inv L (s.setConn fd { s.conns fd with
      down := (s.conns fd).down.pull L.size n
      drained := (s.conns fd).drained || (s.conns fd).blocked }) := by
  have hc := h.conns fd
  have hpull : ((s.conns fd).down.pull L.size n).torn = (s.conns fd).down.torn ∧
      ((s.conns fd).down.pull L.size n).left = (s.conns fd).down.left := by
    unfold Pipe.pull
    dsimp only
    split <;> exact ⟨rfl, rfl⟩
  exact h.setConn { hc with
    down := hc.down.pull hle
    torn := fun ht => hc.torn (hpull.1 ▸ ht)
    idle := fun hj => hpull.2.trans (hc.idle hj)
    full := fun hin hb => by cases (hsmooth hin).symm.trans hb }

theorem inv_exits : Inv L (s.setConn fd { s.conns fd with alive := false }) :=
  h.setConn { h.conns fd with
    torn := fun _ => .inr rfl
    whole := fun _ ha => by cases ha }

end Sessions

/-! ## The tasks of the thread -/

theorem filterMap_reads {new k : List Task} (hnew : ∀ fd, Task.read fd ∉ new) :
    (new ++ k).filterMap Task.reads = k.filterMap Task.reads := by
  have hnil : new.filterMap Task.reads = [] := by
    refine filterMap_eq_nil_iff.mpr fun u hu => ?_
    cases hread : u.reads with
    | none => rfl
    | some fd => exact absurd (Task.reads_eq_some.mp hread ▸ hu) (hnew fd)
  rw [filterMap_append, hnil, nil_append]

section Tasks

variable {t : Task} {k : List Task} (h : Inv L s) (htodo : s.todo = t :: k)
include h htodo

theorem Inv.reads_tail : (k.filterMap Task.reads).Nodup := by
  have := h.reads
  rw [htodo, filterMap_cons] at this
  split at this
  · exact this
  · exact (nodup_cons.mp this).2

theorem Inv.ends_or : (∃ b, t = .take b) ∧ k = [] ∨ ∃ k' b, k = k' ++ [.take b] := by
  rcases h.ends with ⟨-, hnil, -⟩ | ⟨k', b, heq⟩
  · cases htodo.symm.trans hnil
  · rw [htodo] at heq
    cases k' with
    | nil => exact .inl ⟨⟨b, (List.cons.inj heq).1⟩, (List.cons.inj heq).2⟩
    | cons u k' => exact .inr ⟨k', b, (List.cons.inj heq).2⟩

theorem Inv.ends_tail (htake : ∀ b, t ≠ .take b) : ∃ k' b, k = k' ++ [.take b] :=
  (h.ends_or htodo).resolve_left fun ⟨⟨b, hb⟩, _⟩ => htake b hb

variable (hjob : s.job = none)
include hjob

/-- A task is replaced by others. They may not read, they have to drop the
sessions the task was to drop, and the last task looks for wedged ones. -/
theorem Inv.next {room : State} {fds : List Int} (hfds : fds.Sublist s.fds) {new : List Task}
    (hnew : ∀ fd, Task.read fd ∉ new)
    (hdoomed : ∀ fd ∈ fds, fd ∈ s.room.wedged ∨ t = .close fd →
      fd ∈ room.wedged ∨ Task.close fd ∈ new)
    (hends : (∃ b, t = .take b) → new = [] ∧ room.wedged = [] ∨ ∃ k' b, new = k' ++ [.take b]) :
    Inv L { s with room := room, fds := fds, todo := new ++ k } where
  conns := fun fd => { h.conns fd with
    full := fun hin => (h.conns fd).full (hfds.subset hin)
    doomed := fun hin hb => by
      have hd := (h.conns fd).doomed (hfds.subset hin) hb
      rw [htodo, mem_cons, eq_comm, ← or_assoc] at hd
      rcases hd with hd | hm
      · exact (hdoomed fd hin hd).imp_right (mem_append_left _)
      · exact .inr (mem_append_right _ hm)
    whole := fun hr => (h.conns fd).whole (hr.imp_right fun hm => htodo ▸
      mem_cons_of_mem _ ((mem_append.mp hm).resolve_left (hnew fd))) }
  target := fun fd m hj => by cases hjob.symm.trans hj
  reads := by
    rw [filterMap_reads hnew]
    exact h.reads_tail htodo
  once := fun fd hj => by cases hjob.symm.trans hj
  ends := by
    rcases h.ends_or htodo with ⟨ht, rfl⟩ | ⟨k', b, rfl⟩
    · rcases hends ht with ⟨rfl, hw⟩ | ⟨k', b, rfl⟩
      · exact .inl ⟨hjob, rfl, hw⟩
      · exact .inr ⟨k', b, append_nil _⟩
    · exact .inr ⟨new ++ k', b, (append_assoc ..).symm⟩
  nodup := hfds.nodup h.nodup

theorem Inv.replace (hclose : ∀ fd, t ≠ .close fd) (htake : ∀ b, t ≠ .take b) {room : State}
    (hw : room.wedged = s.room.wedged) (new : List Task) (hnew : ∀ fd, Task.read fd ∉ new) :
    Inv L { s with room := room, todo := new ++ k } :=
  h.next htodo hjob (.refl _) hnew (fun fd _ hd => .inl (hw ▸ hd.resolve_right (hclose fd)))
    fun ⟨b, hb⟩ => absurd hb (htake b)

theorem inv_close (ht : t = .close fd) : Inv L { s with todo := k, fds := s.fds.erase fd } := by
  refine @Inv.next L s t k h htodo hjob s.room _ erase_sublist [] (by simp)
    (fun fd' hin hd => .inl (hd.resolve_right fun heq => ?_)) (by simp [ht])
  rw [ht] at heq
  exact (h.nodup.mem_erase_iff.mp hin).1 (Task.close.inj heq).symm

theorem inv_read (ht : t = .read fd) :
    Inv L { s with todo := k, job := some (.reading fd) } := by
  have hnext := @Inv.replace L s t k h htodo hjob (by simp [ht]) (by simp [ht]) s.room rfl []
    (by simp)
  refine { hnext with
    conns := fun fd' => { hnext.conns fd' with
      idle := fun _ => (hnext.conns fd').idle (by simp [hjob])
      whole := fun hr => (h.conns fd').whole (.inr ?_) }
    target := fun _ _ hj => by cases hj
    once := fun fd' hj hm => ?_
    ends := .inr (h.ends_tail htodo (by simp [ht])) }
  · rw [htodo, ht]
    rcases hr with hj | hm
    · cases hj
      exact mem_cons_self
    · exact mem_cons_of_mem _ hm
  · cases hj
    have hnd := h.reads
    rw [htodo, ht, filterMap_cons_some (by rfl)] at hnd
    exact (nodup_cons.mp hnd).1 (mem_filterMap.mpr ⟨_, hm, rfl⟩)

/-- `client_take_wedged` when there is none: the thread may poll again, once
nothing was dropped since the last flush. -/
theorem inv_take_none {dropped : Bool} (ht : t = .take dropped) (hw : s.room.wedged = []) :
    Inv L { s with todo := if dropped then .call .flush :: .take false :: k else k } := by
  have hnext := fun new => @Inv.next L s t k h htodo hjob s.room _ (.refl _) new
  cases dropped with
  | true =>
    exact hnext [.call .flush, .take false] (by simp) (by simp [ht])
      fun _ => .inr ⟨[.call .flush], false, rfl⟩
  | false => exact hnext [] (by simp) (by simp [ht]) fun _ => .inl ⟨rfl, hw⟩

theorem inv_take_some {dropped : Bool} (ht : t = .take dropped) {rest : List Int}
    (hw : s.room.wedged = fd :: rest) :
    Inv L { s with
      room := { s.room with wedged := rest }
      todo := (if fd ∈ s.fds then drop fd else []) ++ .take true :: k } := by
  rw [append_cons]
  refine h.next htodo hjob (.refl _) (by split <;> simp [drop]) (fun fd' hin hd => ?_)
    fun _ => .inr ⟨_, true, rfl⟩
  have hm := hd.resolve_right (by simp [ht])
  rw [hw] at hm
  rcases mem_cons.mp hm with rfl | hm
  · rw [if_pos hin]
    simp [drop]
  · exact .inl hm

end Tasks

/-! ## Reads and writes of the thread -/

theorem inv_start (h : Inv L s) (hjob : s.job = none) (hends : ∃ k b, s.todo = k ++ [.take b])
    (hin : fd ∈ s.fds) {r : Bytes} (hr : r.length = L.size) {marks : Bool}
    (hclose : marks = false → Task.close fd ∈ s.todo) :
    Inv L { s.setConn fd { s.conns fd with down := (s.conns fd).down.start r } with
      job := some (.writing fd marks) } := by
  have hbegun : Inv L { s with job := some (.writing fd marks) } :=
    { h with
      conns := fun k => { h.conns k with
        idle := fun _ => (h.conns k).idle fun m => by simp [hjob]
        whole := fun hr => (h.conns k).whole (hr.imp_left fun hj => by cases hj) }
      target := fun k m hj => by
        obtain ⟨rfl, rfl⟩ := Job.writing.inj (Option.some.inj hj)
        exact ⟨hin, hclose⟩
      once := fun k hj => by cases hj
      ends := .inr hends }
  exact hbegun.setConn { hbegun.conns fd with
    down := (h.conns fd).down.start ((h.conns fd).idle fun m => by simp [hjob]) hr
    idle := fun hj => absurd rfl (hj marks) }

theorem Inv.endJob (h : Inv L s) (hjob : s.job ≠ none)
    (hleft : ∀ fd m, s.job = some (.writing fd m) → (s.conns fd).down.left = [])
    (new : List Task) (hnew : ∀ fd, Task.read fd ∉ new) :
    Inv L { s with job := none, todo := new ++ s.todo } where
  conns := fun fd => { h.conns fd with
    idle := fun _ => by
      by_cases hj : ∃ m, s.job = some (.writing fd m)
      · obtain ⟨m, hj⟩ := hj
        exact hleft fd m hj
      · exact (h.conns fd).idle fun m hm => hj ⟨m, hm⟩
    doomed := fun hin hb => ((h.conns fd).doomed hin hb).imp_right (mem_append_right _)
    whole := fun hr => (h.conns fd).whole (.inr
      ((mem_append.mp (hr.resolve_left fun hj => by cases hj)).resolve_left (hnew fd))) }
  target := fun _ _ hj => by cases hj
  reads := by
    rw [filterMap_reads hnew]
    exact h.reads
  once := fun _ hj => by cases hj
  ends := by
    obtain ⟨k, b, heq⟩ := h.ends.resolve_left fun hj => hjob hj.1
    exact .inr ⟨new ++ k, b, by dsimp only; rw [heq, append_assoc]⟩
  nodup := h.nodup

section Jobs

variable (h : Inv L s)
include h

theorem inv_endWrite {marks : Bool} (hjob : s.job = some (.writing fd marks))
    (hleft : (s.conns fd).down.left = []) : Inv L { s with job := none } := by
  refine h.endJob (by simp [hjob]) (fun k m hj => ?_) [] (by simp)
  obtain ⟨rfl, -⟩ := Job.writing.inj (Option.some.inj (hjob.symm.trans hj))
  exact hleft

theorem inv_endRead (hjob : s.job = some (.reading fd)) (new : List Task)
    (hnew : ∀ fd, Task.read fd ∉ new) : Inv L { s with job := none, todo := new ++ s.todo } :=
  h.endJob (by simp [hjob]) (by simp [hjob]) new hnew

theorem inv_written {marks : Bool} (hjob : s.job = some (.writing fd marks)) {n : Nat}
    (ha : (s.conns fd).alive = true) (hn : 0 < n) (hle : n ≤ (s.conns fd).down.left.length)
    (hsmooth : (s.conns fd).blocked = true → (s.conns fd).drained = true) :
    Inv L (s.setConn fd { s.conns fd with
      down := (s.conns fd).down.push n
      extra := (s.conns fd).extra || (s.conns fd).blocked }) := by
  have hc := h.conns fd
  -- its socket is full and nobody drains it, so the session has not blocked
  have hfree : (s.conns fd).blocked = false := by
    by_contra hb
    rw [Bool.not_eq_false] at hb
    cases (hsmooth hb).symm.trans (hc.full (h.target fd marks hjob).1 hb)
  have htorn : (s.conns fd).down.torn = false := by
    by_contra ht
    rw [Bool.not_eq_false] at ht
    simpa [hfree, ha] using hc.torn ht
  have hpush : ((s.conns fd).down.push n).torn = (s.conns fd).down.torn := by
    unfold Pipe.push
    dsimp only
    split <;> rfl
  exact h.setConn { hc with
    down := hc.down.push htorn hn hle
    torn := fun ht => hc.torn (hpush ▸ ht)
    silent := by simp [hc.silent, hfree]
    idle := fun hj => absurd hjob (hj marks) }

theorem inv_read_part (hjob : s.job = some (.reading fd)) {n : Nat}
    (hn : n ≤ (s.conns fd).up.stream.length) (hle : n ≤ L.size - (s.conns fd).up.got.length)
    (hpart : ((s.conns fd).up.got ++ (s.conns fd).up.stream.take n).length ≠ L.size) :
    Inv L (s.setConn fd { s.conns fd with up := (s.conns fd).up.pull L.size n }) := by
  refine h.setConn { h.conns fd with
    up := (h.conns fd).up.pull hle
    unbroken := ?_
    whole := fun hr ha => ?_ }
  · dsimp only [Pipe.pull]
    rw [if_neg hpart]
    exact (h.conns fd).unbroken
  · have hsum := (h.conns fd).whole (.inl hjob) ha
    dsimp only [Pipe.pull]
    rw [if_neg hpart]
    simp only [length_append, length_take, length_drop]
    omega

theorem inv_read_whole (hjob : s.job = some (.reading fd)) {n : Nat}
    (hle : n ≤ L.size - (s.conns fd).up.got.length)
    (hfull : ((s.conns fd).up.got ++ (s.conns fd).up.stream.take n).length = L.size)
    (msg : AdminMsg) :
    Inv L { s.setConn fd { s.conns fd with up := (s.conns fd).up.pull L.size n } with
      job := none
      todo := .call (.handle fd msg) :: s.todo } := by
  have hend := inv_endRead h hjob [.call (.handle fd msg)] (by simp)
  refine hend.setConn { hend.conns fd with
    up := (h.conns fd).up.pull hle
    unbroken := ?_
    whole := fun hr _ => absurd hr (by simpa using h.once fd hjob) }
  dsimp only [Pipe.pull]
  rw [if_pos hfull]
  exact (h.conns fd).unbroken

theorem inv_wouldBlock {marks : Bool} (hjob : s.job = some (.writing fd marks))
    (hsmooth : marks = true → fd ∈ s.room.wedged ∨ s.room.wedged.length < State.wedgedMax) :
    Inv L { s.setConn fd
        { s.conns fd with
          down := (s.conns fd).down.abandon, blocked := true, drained := false } with
      room := if marks then s.room.markWedged fd else s.room
      job := none } := by
  have hroom : Inv L { s with room := if marks then s.room.markWedged fd else s.room } :=
    { h with
      conns := fun k => { h.conns k with
        doomed := fun hk hb => ((h.conns k).doomed hk hb).imp_left fun hm => by
          dsimp only
          split
          · exact State.wedged_subset_markWedged hm
          · exact hm }
      ends := .inr (h.ends.resolve_left (by simp [hjob])) }
  have hconn := @Inv.setConn L _ fd { s.conns fd with
      down := (s.conns fd).down.abandon, blocked := true, drained := false } hroom
    { hroom.conns fd with
      down := (h.conns fd).down.abandon
      torn := fun _ => .inl rfl
      idle := fun _ => rfl
      full := fun _ _ => rfl
      doomed := fun _ _ => ?_ }
  · exact inv_endWrite hconn hjob (by rw [setConn_self]; rfl)
  cases marks with
  | true => exact .inl (State.mem_markWedged (hsmooth rfl))
  | false => exact .inr ((h.target fd false hjob).2 rfl)

theorem inv_writer_gone {marks : Bool} (hjob : s.job = some (.writing fd marks))
    (hd : (s.conns fd).alive = false) :
    Inv L { s.setConn fd { s.conns fd with down := (s.conns fd).down.abandon } with
      job := none } :=
  inv_endWrite (h.setConn { h.conns fd with
    down := (h.conns fd).down.abandon
    torn := fun _ => .inr hd
    idle := fun _ => rfl }) hjob (by rw [setConn_self]; rfl)

end Jobs

/-! ## Every event -/

theorem guarded {p : Prop} [Decidable p] {a b : Admin} (h : (if p then some a else none) = some b) :
    p ∧ a = b := by
  simpa using h

theorem inv_wake (h : Inv L s) (hjob : s.job = none) (htodo : s.todo = [])
    {news : List (Int × Int)} {kicks : List Int} (hnews : (s.fds ++ news.map Prod.fst).Nodup)
    (hsmooth : ∀ fd ∈ s.fds, (s.conns fd).alive = true →
      (s.conns fd).up.stream = [] ∨ L.size ≤ (s.conns fd).up.stream.length) :
    Inv L (s.wake news kicks) := by
  have hintact := h.intact.dropped hjob htodo
  have hsub : ((news.take (maxSessions - s.fds.length)).map Prod.fst).Sublist
      (news.map Prod.fst) := (take_sublist _ _).map _
  unfold wake
  generalize news.take (maxSessions - s.fds.length) = admitted at hsub ⊢
  have hnd : (s.fds ++ admitted.map Prod.fst).Nodup := hnews.sublist (hsub.append_left _)
  have hold : ∀ fd ∈ s.fds, fd ∉ admitted.map Prod.fst := fun fd hfd hin =>
    (nodup_append.mp hnd).2.2 fd hfd fd hin rfl
  have hfirst : ∀ fd, Task.read fd ∉
      admitted.map (fun x => Task.call (.add x.1 x.2)) ++ kicks.map .kick := by simp
  -- only sessions that were ready are going to be read
  have hreads : ∀ {fd}, s.job = some (.reading fd) ∨ Task.read fd ∈
      (admitted.map (fun x => Task.call (.add x.1 x.2)) ++ kicks.map .kick) ++
        (s.ready.map .read ++ [.call .flush, .take false]) → fd ∈ s.ready := by
    intro fd hr
    have hm := hr.resolve_left fun hj => by cases hjob.symm.trans hj
    simpa using (mem_append.mp hm).resolve_left (hfirst fd)
  refine ⟨fun fd => ?_, fun fd m hj => ?_, ?_, fun fd hj => ?_, .inr ?_, hnd⟩
  · dsimp only
    split
    next hin => exact connOk_unused fun hr => hold fd (mem_filter.mp (hreads hr)).1 hin
    next hout =>
      have hfree : fd ∈ s.fds ++ admitted.map Prod.fst → (s.conns fd).blocked = false :=
        fun hin => hintact fd ((mem_append.mp hin).resolve_right hout)
      exact { h.conns fd with
        idle := fun _ => (h.conns fd).idle fun m => by simp [hjob]
        full := fun hin hb => by cases (hfree hin).symm.trans hb
        doomed := fun hin hb => by cases (hfree hin).symm.trans hb
        whole := fun hr ha => by
          obtain ⟨hin, hp⟩ := mem_filter.mp (hreads hr)
          have hne : (s.conns fd).up.stream ≠ [] := by simpa [ha] using hp
          have := (hsmooth fd hin ha).resolve_left hne
          omega }
  · cases hjob.symm.trans hj
  · have hready : (s.ready.map Task.read ++ [Task.call .flush, Task.take false]).filterMap
        Task.reads = s.ready := by
      simp [filterMap_append, filterMap_map, Task.reads, Function.comp_def]
    rw [filterMap_reads hfirst, hready]
    exact h.nodup.filter _
  · cases hjob.symm.trans hj
  · exact ⟨(admitted.map (fun x => Task.call (.add x.1 x.2)) ++ kicks.map .kick) ++
      (s.ready.map .read ++ [.call .flush]), false, by simp⟩

theorem inv_task (h : Inv L s) (hjob : s.job = none) {t : Task} {k : List Task}
    (htodo : s.todo = t :: k) : Inv L (runTask L (roomModule seeds) { s with todo := k } t) := by
  cases t with
  | call c =>
    exact h.replace htodo hjob (by simp) (by simp) (wedged_run seeds s.room c) _ fun fd hm => by
      obtain ⟨x, -, hx⟩ := mem_map.mp hm
      cases hx
  | write fd m =>
    have hnext := h.replace htodo hjob (by simp) (by simp) rfl [] (by simp)
    unfold runTask
    dsimp only
    split
    next hin =>
      exact inv_start hnext hjob (h.ends_tail htodo (by simp)) hin (L.length_record _)
        fun hm => by cases hm
    · exact hnext
  | kick fd =>
    unfold runTask
    dsimp only
    split
    next hin =>
      obtain ⟨k', b, rfl⟩ := h.ends_tail htodo (by simp)
      have hnext := h.replace htodo hjob (by simp) (by simp) rfl (drop fd) (by simp [drop])
      exact inv_start hnext hjob ⟨drop fd ++ k', b, (append_assoc ..).symm⟩ hin
        (L.length_record _) fun _ => by simp [drop]
    · exact h.replace htodo hjob (by simp) (by simp) rfl [] (by simp)
  | read fd =>
    unfold runTask
    dsimp only
    split
    · exact inv_read h htodo hjob rfl
    · exact h.replace htodo hjob (by simp) (by simp) rfl [] (by simp)
  | close fd => exact @inv_close L s fd _ k h htodo hjob rfl
  | take dropped =>
    unfold runTask State.clientTakeWedged
    cases hw : s.room.wedged with
    | nil => exact inv_take_none h htodo hjob rfl hw
    | cons fd rest => exact inv_take_some h htodo hjob rfl hw

theorem inv_step (h : Inv L s) {e : Event} {s' : Admin} (hsmooth : e.Smooth L s)
    (hstep : s.step L (roomModule seeds) e = some s') : Inv L s' := by
  cases e with
  | begins fd r =>
    obtain ⟨⟨-, hleft, hr⟩, rfl⟩ := guarded hstep
    exact inv_begins h hleft hr
  | pushes fd n =>
    obtain ⟨⟨-, -, hn, hle⟩, rfl⟩ := guarded hstep
    exact inv_pushes h hn hle
  | pulls fd n =>
    obtain ⟨⟨-, -, -, hle⟩, rfl⟩ := guarded hstep
    exact inv_pulls h hle hsmooth
  | exits fd =>
    obtain rfl := Option.some.inj hstep
    exact inv_exits h
  | polled news kicks =>
    obtain ⟨⟨hjob, htodo, hnews⟩, rfl⟩ := guarded hstep
    exact inv_wake h hjob htodo hnews hsmooth
  | goesOn =>
    unfold step at hstep
    dsimp only at hstep
    split at hstep
    next t todo hjob htodo =>
      obtain rfl := Option.some.inj hstep
      exact inv_task h hjob htodo
    next fd m _ hjob =>
      obtain ⟨hleft, rfl⟩ := guarded hstep
      exact inv_endWrite h hjob hleft
    next => cases hstep
  | moved n =>
    unfold step at hstep
    dsimp only at hstep
    split at hstep
    next => cases hstep
    next fd m hjob =>
      obtain ⟨⟨ha, hn, hle⟩, rfl⟩ := guarded hstep
      exact inv_written h hjob ha hn hle (hsmooth (fd, m) (by simp [target, hjob]))
    next fd hjob =>
      split at hstep
      next hg =>
        obtain ⟨-, hn, hle⟩ := hg
        split at hstep
        next hfull =>
          obtain rfl := Option.some.inj hstep
          exact inv_read_whole h hjob hle hfull _
        next hpart =>
          obtain rfl := Option.some.inj hstep
          exact inv_read_part h hjob hn hle hpart
      next => cases hstep
  | again =>
    unfold step at hstep
    dsimp only at hstep
    split at hstep
    next => cases hstep
    next fd m hjob =>
      obtain ⟨-, rfl⟩ := guarded hstep
      exact inv_wouldBlock h hjob (hsmooth (fd, m) (by simp [target, hjob]))
    next fd hjob =>
      -- the whole record is there, so this cannot be
      obtain ⟨⟨ha, hstream⟩, -⟩ := guarded hstep
      have hwhole := (h.conns fd).whole (.inl hjob) ha
      have hgot := (h.conns fd).up.got
      rw [hstream] at hwhole
      simp only [length_nil] at hwhole
      omega
  | gone =>
    unfold step at hstep
    dsimp only at hstep
    split at hstep
    next => cases hstep
    next fd m hjob =>
      obtain ⟨hd, rfl⟩ := guarded hstep
      exact inv_writer_gone h hjob (by simpa using hd)
    next fd hjob =>
      obtain ⟨-, rfl⟩ := guarded hstep
      exact inv_endRead h hjob (drop fd) (by simp [drop])

end Admin

/-- In every run of smooth events the framing holds: on either side of each
socketpair what is handed over are the records that were written, in order;
no live session is cut off; and one that blocked hears nothing more and is
dropped before the next `poll`. -/
theorem framing_intact (L : Layout) (seeds : Nat → Nat) (s : Admin)
    (h : Admin.Reached L seeds (fun s e => e.Smooth L s) s) : s.Intact := by
  suffices hinv : Admin.Inv L s from hinv.intact
  induction h with
  | boot => exact Admin.inv_boot
  | step _ he hstep ih => exact Admin.inv_step ih he hstep

section Inputs

/-- Records of about the size of the real ones, of which only the first byte
matters: a session sends JOIN or LEAVE, and is sent states and other
messages. -/
def bareLayout : Layout where
  size := 524
  pos := by decide
  record := fun
    | .session _ _ => List.replicate 524 1
    | _ => List.replicate 524 2
  length_record := by
    intro m
    split <;> exact length_replicate
  view := fun r => if r.head? = some 1 then .join 0 guest else .leave

def connected (n : Nat) : List Event :=
  .polled ((List.range n).map fun k => (5 + k, 100 + k)) [] :: List.replicate (n + 2) .goesOn

def sends (fd : Int) (kind : UInt8) : List Event :=
  [.begins fd (kind :: List.replicate 523 0), .pushes fd 524]

def joined : List Event :=
  connected 1 ++ sends 5 1 ++
    [.polled [] [], .goesOn, .moved 500, .moved 24, .goesOn, .goesOn, .moved 524, .goesOn]

/-- The first 100 bytes of a LEAVE are there when the thread looks. -/
def halfSent : List Event :=
  connected 1 ++ [.begins 5 (List.replicate 524 0), .pushes 5 100, .polled [] [], .goesOn,
    .moved 100, .again]

/-- A new member's state fills the socket after 100 bytes. The member reads
them, so that there is room again for the standings. -/
def halfTold : List Event :=
  connected 1 ++ sends 5 1 ++ [.polled [] [], .goesOn, .moved 524, .goesOn, .goesOn, .moved 100,
    .again, .pulls 5 100, .goesOn, .goesOn, .moved 524, .goesOn, .pulls 5 424]

/-- 17 sessions send LEAVE and none takes the answer. -/
def crowd : List Event :=
  connected 17 ++ (List.range 17).flatMap (fun k => sends (5 + k) 0) ++ [.polled [] []] ++
    (List.replicate 17 [Event.goesOn, .moved 524, .goesOn, .goesOn, .again]).flatten ++
    List.replicate 52 .goesOn

theorem framing_intact_joined :
    ∃ s, Admin.Reached bareLayout (fun _ => 0) (fun s e => e.Smooth bareLayout s) s ∧
      (s.conns 5).up.handed = [1 :: List.replicate 523 0] ∧ s.Intact := by
  obtain ⟨s, hs, hhanded⟩ := @Admin.exists_reached bareLayout (fun _ => 0)
    (fun s e => e.Smooth bareLayout s) _ joined
    (fun s => (s.conns 5).up.handed = [1 :: List.replicate 523 0]) _ (by decide +kernel)
  exact ⟨s, hs, hhanded, framing_intact bareLayout (fun _ => 0) s hs⟩

theorem framing_breaks :
    (∃ s, Admin.Reached bareLayout (fun _ => 0) (fun _ _ => True) s ∧
      (s.conns 5).alive = true ∧ (s.conns 5).cutOff = true) ∧
    (∃ s, Admin.Reached bareLayout (fun _ => 0) (fun _ _ => True) s ∧
      (s.conns 5).extra = true ∧ ¬ (s.conns 5).down.handed <+: (s.conns 5).down.written) ∧
    ∃ s, Admin.Reached bareLayout (fun _ => 0) (fun _ _ => True) s ∧
      s.job = none ∧ s.todo.length = 0 ∧ 21 ∈ s.fds ∧ (s.conns 21).blocked = true := by
  refine ⟨Admin.exists_reached halfSent ?_, Admin.exists_reached halfTold ?_,
    Admin.exists_reached crowd ?_⟩ <;> decide +kernel

end Inputs

end Corestack.Tetrisd
