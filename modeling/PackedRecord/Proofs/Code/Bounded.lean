import PackedRecord.Code.Sink
import PackedRecord.Proofs.Code.Emitter

/-! # Bounded sinks — a text up to the byte that does not fit

    A sink takes what it has room for, and the first piece that it cannot take
    as a whole ends the writing.  How a text is cut into pieces plays no part:
    a sink holds as much of it as fits (`writeAll_eq`).  A tape is a sink that
    also keeps what came of every write, which shows that none is attempted
    after one that failed. -/

namespace PackedRecord.Code

namespace Sink

/-- No more is taken than there is room for. -/
def Sound (sink : Sink) : Prop :=
  sink.taken.size ≤ sink.limit

/-- How many bytes can still be taken. -/
def room (sink : Sink) : Nat :=
  sink.limit - sink.taken.size

/-- The sink with as many of the bytes as it has room for. -/
def take (sink : Sink) (bytes : ByteArray) : Sink :=
  { sink with taken := sink.taken ++ bytes.extract 0 sink.room }

theorem sound_empty (limit : Nat) : (empty limit).Sound :=
  Nat.zero_le limit

/-- To take more bytes than there are is to take all of them. -/
theorem extract_of_size_le {bytes : ByteArray} {n : Nat} (h : bytes.size ≤ n) :
    bytes.extract 0 n = bytes := by
  have hmax : bytes.extract 0 (max n bytes.size) = bytes := ByteArray.extract_zero_max_size
  rwa [Nat.max_eq_left h] at hmax

theorem extract_min_size (bytes : ByteArray) (n : Nat) :
    bytes.extract 0 (min n bytes.size) = bytes.extract 0 n := by
  rcases Nat.le_total n bytes.size with hle | hle
  · rw [Nat.min_eq_left hle]
  · rw [Nat.min_eq_right hle, ByteArray.extract_zero_size, extract_of_size_le hle]

variable {sink : Sink}

theorem limit_take (bytes : ByteArray) : (sink.take bytes).limit = sink.limit := rfl

/-- What a sink takes is bounded by its room and by what there is. -/
theorem size_taken_take (bytes : ByteArray) :
    (sink.take bytes).taken.size = sink.taken.size + min sink.room bytes.size := by
  show (sink.taken ++ bytes.extract 0 sink.room).size = _
  rw [ByteArray.size_append, ByteArray.size_extract, Nat.sub_zero]

/-- A sink never takes more than its limit. -/
theorem sound_take (h : sink.Sound) (bytes : ByteArray) : (sink.take bytes).Sound := by
  rw [Sound] at h
  rw [Sound, size_taken_take, limit_take, room]
  omega

/-- The room shrinks by what is offered, down to none. -/
theorem room_take (h : sink.Sound) (bytes : ByteArray) :
    (sink.take bytes).room = sink.room - bytes.size := by
  rw [Sound] at h
  rw [room, size_taken_take, limit_take, room]
  omega

theorem take_empty : sink.take .empty = sink := by
  rw [take, extract_of_size_le (Nat.zero_le _), ByteArray.append_empty]

/-- Bytes behind bytes are taken like one run of bytes. -/
theorem take_append (h : sink.Sound) (first rest : ByteArray) :
    sink.take (first ++ rest) = (sink.take first).take rest := by
  show _ = Sink.mk sink.limit (sink.taken ++ first.extract 0 sink.room
    ++ rest.extract 0 (sink.take first).room)
  rw [room_take h, take, ByteArray.extract_append, Nat.zero_sub, ByteArray.append_assoc]

/-- What finds no room leaves the sink as it is. -/
theorem take_of_room_eq_zero (h : sink.room = 0) (bytes : ByteArray) : sink.take bytes = sink := by
  rw [take, h, ByteArray.extract_same, ByteArray.append_empty]

/-- A write takes what there is room for, and succeeds if that is all. -/
theorem write_eq (h : sink.Sound) (piece : String) :
    sink.write piece = (sink.take piece.toUTF8, decide (piece.toUTF8.size ≤ sink.room)) := by
  have hroom : sink.taken.size + piece.toUTF8.size ≤ sink.limit
      ↔ piece.toUTF8.size ≤ sink.room := by
    rw [Sound] at h
    rw [room]
    omega
  rw [write]
  by_cases hfits : piece.toUTF8.size ≤ sink.room
  · rw [if_pos (hroom.mpr hfits), decide_eq_true hfits, take, extract_of_size_le hfits]
  · rw [if_neg (fun hle => hfits (hroom.mp hle)), decide_eq_false hfits]
    rfl

/-- Pieces are taken like their whole text, as far as there is room. -/
theorem writeAll_eq (pieces : List String) :
    ∀ {sink : Sink}, sink.Sound →
      sink.writeAll pieces
        = (sink.take (String.join pieces).toUTF8,
            decide ((String.join pieces).toUTF8.size ≤ sink.room)) := by
  induction pieces with
  | nil =>
      intro sink _
      rw [writeAll, String.join_nil]
      exact Prod.ext take_empty.symm (decide_eq_true (Nat.zero_le sink.room)).symm
  | cons piece rest ih =>
      intro sink h
      have hbytes : (String.join (piece :: rest)).toUTF8
          = piece.toUTF8 ++ (String.join rest).toUTF8 := by
        rw [String.join_cons]
        exact String.toByteArray_append
      rw [writeAll, write_eq h, hbytes, take_append h, ByteArray.size_append]
      by_cases hfits : piece.toUTF8.size ≤ sink.room
      · rw [decide_eq_true hfits]
        show writeAll _ rest = _
        rw [ih (sound_take h _), room_take h]
        refine Prod.ext rfl (decide_eq_decide.mpr ?_)
        omega
      · -- nothing is taken of what follows
        have hfull : (sink.take piece.toUTF8).room = 0 := by
          rw [room_take h]
          omega
        rw [decide_eq_false hfits, take_of_room_eq_zero hfull, decide_eq_false (by omega)]

example : ((empty 3).writeAll ["ab", "cd", "ef"]).1.taken = "abc".toUTF8 := by decide

end Sink

/-! ## Tapes -/

/-- A sink, and whether the writes on it have succeeded, in their order. -/
structure Tape where
  sink : Sink
  outcomes : List Bool

namespace Tape

/-- Writes a piece, and keeps what came of it; goes on only after a success. -/
def put (piece : String) : ExceptT Unit (StateM Tape) Unit := do
  let tape ← get
  let (sink, success) := tape.sink.write piece
  set (Tape.mk sink (tape.outcomes ++ [success]))
  if success then pure () else throw ()

/-- Takes the steps on an empty sink. -/
def run (limit : Nat) (step : ExceptT Unit (StateM Tape) Unit) : Except Unit Unit × Tape :=
  step.run.run ⟨.empty limit, []⟩

/-- What a step that has succeeded or failed leaves behind. -/
def outcome (success : Bool) : Except Unit Unit :=
  if success then .ok () else .error ()

/-- What follows a step is not taken if that one fails. -/
theorem run_bind (step step' : ExceptT Unit (StateM Tape) Unit) (tape : Tape) :
    (do step; step').run.run tape
      = match step.run.run tape with
        | (.ok _, next) => step'.run.run next
        | (.error err, next) => (.error err, next) := by
  rw [ExceptT.run_bind, StateT.run_bind]
  rcases step.run.run tape with ⟨_ | _, next⟩ <;> rfl

/-- A piece is put on a tape as it is written into the sink, and the tape says
    how that went. -/
theorem run_put (piece : String) (tape : Tape) :
    (put piece).run.run tape
      = (outcome (tape.sink.write piece).2,
          ⟨(tape.sink.write piece).1, tape.outcomes ++ [(tape.sink.write piece).2]⟩) := by
  have hstep : (put piece).run.run tape
      = (if (tape.sink.write piece).2 then (pure () : ExceptT Unit (StateM Tape) Unit)
          else throw ()).run.run
        ⟨(tape.sink.write piece).1, tape.outcomes ++ [(tape.sink.write piece).2]⟩ := rfl
  rw [hstep]
  cases (tape.sink.write piece).2 <;> rfl

/-- Pieces are put on a tape as they are written into its sink, and the only
    write that may fail is the last one. -/
theorem run_forM_put (pieces : List String) :
    ∀ tape : Tape, ∃ successes : Nat,
      (forM pieces put : ExceptT Unit (StateM Tape) Unit).run.run tape
        = (outcome (tape.sink.writeAll pieces).2,
            ⟨(tape.sink.writeAll pieces).1,
              tape.outcomes ++ List.replicate successes true
                ++ if (tape.sink.writeAll pieces).2 then [] else [false]⟩) := by
  induction pieces with
  | nil =>
      intro tape
      refine ⟨0, ?_⟩
      show (Except.ok (), tape) = (_, Tape.mk _ _)
      simp [Sink.writeAll, outcome]
  | cons piece rest ih =>
      intro tape
      rw [List.forM_cons, run_bind, run_put, Sink.writeAll]
      rcases hwrite : tape.sink.write piece with ⟨sink, success⟩
      cases success with
      | true =>
          obtain ⟨successes, hrest⟩ := ih ⟨sink, tape.outcomes ++ [true]⟩
          refine ⟨successes + 1, hrest.trans ?_⟩
          simp [List.replicate_succ]
      | false =>
          refine ⟨0, ?_⟩
          simp [outcome]

/-- Only the last write has failed, if any. -/
theorem not_mem_dropLast_outcomes (successes : Nat) (success : Bool) :
    false ∉ (List.replicate successes true ++ if success then [] else [false]).dropLast := by
  have hsuccess : false ∉ List.replicate successes true := by
    intro hmem
    exact nomatch List.eq_of_mem_replicate hmem
  cases success with
  | true =>
      rw [if_pos rfl, List.append_nil]
      exact fun hmem => hsuccess (List.mem_of_mem_dropLast hmem)
  | false =>
      rw [if_neg Bool.false_ne_true, List.dropLast_concat]
      exact hsuccess

end Tape

/-! ## Programs -/

/-- Everything that is put together by writing. -/
theorem run_forM_append (pieces : List String) :
    ∀ text : String,
      (forM pieces fun piece => modify (· ++ piece) : StateM String Unit).run text
        = ((), text ++ String.join pieces) := by
  induction pieces with
  | nil =>
      intro text
      rw [String.join_nil, String.append_empty]
      rfl
  | cons piece rest ih =>
      intro text
      rw [List.forM_cons, String.join_cons, ← String.append_assoc]
      exact ih (text ++ piece)

/-- What comes of emitting a program into a sink with the given limit. -/
def emitInto (limit : Nat) (options : Options) (name : String) (layout : Layout) :
    Except Unit Unit × Tape :=
  Tape.run limit (Emitter.writeLayout Tape.put options name layout)

/-- **A BOUNDED SINK HOLDS A PREFIX**: emitting a program into a sink succeeds
    exactly if the whole text has room there.  What the sink holds in the end
    are the first bytes of the text, as many as there is room for, and no write
    but the last has failed, so none is attempted after a failure.  Writing the
    text line by line leaves the same sink with the same outcome, and without a
    limit the text is what is written. -/
theorem bounded_sink_holds (limit : Nat) (options : Options) (name : String) (layout : Layout) :
    let text := (Program.ofLayout name layout).text options
    let emitted := emitInto limit options name layout
    (emitted.1 = .ok () ↔ text.utf8ByteSize ≤ limit)
      ∧ emitted.2.sink.taken = text.toUTF8.extract 0 (min limit text.utf8ByteSize)
      ∧ false ∉ emitted.2.outcomes.dropLast
      ∧ (Sink.empty limit).writeAll ((Program.ofLayout name layout).pieces options)
        = (emitted.2.sink, decide (text.utf8ByteSize ≤ limit))
      ∧ (Emitter.writeLayout (fun piece => modify (· ++ piece)) options name layout
            : StateM String Unit).run "" = ((), text) := by
  intro text emitted
  obtain ⟨pieces, hpieces, htext⟩ := Emitter.writes_writeLayout Tape.put options name layout
  obtain ⟨fragments, hfragments, htext'⟩ := Emitter.writes_writeLayout
    (fun piece => modify (· ++ piece) : String → StateM String Unit) options name layout
  obtain ⟨successes, hrun⟩ := Tape.run_forM_put pieces ⟨.empty limit, []⟩
  have hempty := Sink.sound_empty limit
  have hsize : text.toUTF8.size = text.utf8ByteSize := rfl
  have hwritten : (Sink.empty limit).writeAll pieces
      = ((Sink.empty limit).take text.toUTF8, decide (text.utf8ByteSize ≤ limit)) := by
    rw [Sink.writeAll_eq pieces hempty, htext]
    rfl
  have hlines : (Sink.empty limit).writeAll ((Program.ofLayout name layout).pieces options)
      = ((Sink.empty limit).take text.toUTF8, decide (text.utf8ByteSize ≤ limit)) :=
    Sink.writeAll_eq _ hempty
  have hemitted : emitted = _ := (congrArg (Tape.run limit) hpieces).trans hrun
  rw [hwritten] at hemitted
  rw [hemitted, hlines]
  refine ⟨?_, ?_, Tape.not_mem_dropLast_outcomes successes _, rfl, ?_⟩
  · by_cases hfits : text.utf8ByteSize ≤ limit
    · exact iff_of_true (by rw [Tape.outcome, decide_eq_true hfits]; rfl) hfits
    · exact iff_of_false (by rw [Tape.outcome, decide_eq_false hfits]; exact nofun) hfits
  · rw [← hsize, Sink.extract_min_size]
    exact ByteArray.empty_append
  · rw [hfragments, run_forM_append, htext', String.empty_append]
    rfl

end PackedRecord.Code
