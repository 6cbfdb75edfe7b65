import Lindy.Machine.Lines
import Lindy.P2p.Event

/-! # Messages on a connection

`frame_connection` and the reader loop of `spawn_incoming_messages`, from the chunks read from
a socket to the events of the connection, and the sink of the other side. A stream is the list
of what its polls yield until it ends; a poll that panics yields `none` and is the last one.

The socket framed by a `LinesCodec` and `serde_json` are parameters.
-/

namespace Lindy.P2p

open Machine

section Utf8

/-- `str::from_utf8`. -/
def fromUtf8 (bytes : List UInt8) : Option String := String.fromUTF8? bytes.toByteArray

def asBytes (text : String) : List UInt8 := text.toByteArray.data.toList

theorem asBytes_eq (text : String) :
    asBytes text = text.toList.flatMap String.utf8EncodeChar := by
  rw [asBytes, ← String.utf8Encode_toList, List.utf8Encode, List.toList_data_toByteArray]

theorem fromUtf8_asBytes (text : String) : fromUtf8 (asBytes text) = some text := by
  have same : (asBytes text).toByteArray = text.toByteArray := by
    rw [asBytes_eq]
    exact String.utf8Encode_toList
  rw [fromUtf8, same, String.fromUTF8?, dif_pos text.isValidUTF8]
  rfl

/-- Bytes that are a text are the bytes of that text. -/
theorem fromUtf8_eq_some {bytes : List UInt8} {text : String} (made : fromUtf8 bytes = some text) :
    asBytes text = bytes := by
  unfold fromUtf8 String.fromUTF8? at made
  split at made
  · rw [← Option.some.inj made, asBytes]
    exact List.toList_data_toByteArray
  · cases made

/-- A byte below 128 stands for its own character. -/
theorem ascii_of_mem {ch : Char} {byte : UInt8} (member : byte ∈ String.utf8EncodeChar ch)
    (ascii : byte.toNat < 128) : ch.toNat = byte.toNat := by
  unfold String.utf8EncodeChar at member
  dsimp only at member
  split at member
  · obtain rfl := List.mem_singleton.mp member
    rw [UInt8.toNat_ofNat', Nat.mod_eq_of_lt (by omega)]
    rfl
  · exfalso
    -- every byte of a longer encoding has its high bit set
    split_ifs at member <;> simp only [List.mem_cons, List.not_mem_nil, or_false] at member <;>
      rcases member with rfl | rfl | rfl | rfl <;>
      simp only [UInt8.toNat_ofNat'] at ascii <;> omega

theorem notMem_asBytes {ch : Char} {byte : UInt8} {text : String} (ascii : byte.toNat < 128)
    (same : ch.toNat = byte.toNat) (absent : ch ∉ text.toList) : byte ∉ asBytes text := by
  intro member
  rw [asBytes_eq] at member
  obtain ⟨other, inText, encoded⟩ := List.mem_flatMap.mp member
  obtain rfl : other = ch := by
    apply Char.toNat_inj.mp
    rw [same, ascii_of_mem encoded ascii]
  exact absent inText

end Utf8

section Lines

/-- `LinesCodecError`. -/
inductive LinesCodecError where
  | maxLineLengthExceeded
  | io (kind : ErrorKind)

/-- How reading from a socket ends. -/
inductive Ending where
  | eof
  | ioError (kind : ErrorKind)

/-- `\n` -/
def newline : UInt8 := 10

/-- A line ends in `\n` or in `\r\n`. -/
def withoutCarriageReturn (line : List UInt8) : List UInt8 :=
  if line.getLast? = some 13 then line.dropLast else line

/-- The line that the end of the file ends, if any. -/
def lastLine (rest : List UInt8) : Ending → List (List UInt8)
  | .eof => if rest = [] ∨ rest = [13] then [] else [rest]
  | .ioError _ => []

/-- The lines of a byte stream. -/
def lines (bytes : List UInt8) (ending : Ending) : List (List UInt8) :=
  ((cut newline bytes).1 ++ lastLine (cut newline bytes).2 ending).map withoutCarriageReturn

theorem withoutCarriageReturn_eq {line : List UInt8} (clean : 13 ∉ line) :
    withoutCarriageReturn line = line := by
  apply if_neg
  intro last
  exact clean (List.mem_of_getLast? last)

/-- Without a newline there is at most a last line. -/
theorem lines_unended {bytes : List UInt8} (ending : Ending) (clean : newline ∉ bytes) :
    lines bytes ending = (lastLine bytes ending).map withoutCarriageReturn := by
  rw [lines, cut_clean clean, List.nil_append]

/-- A line that was ended is read, and then the others. -/
theorem lines_ended {text : List UInt8} (ending : Ending) (clean : newline ∉ text ∧ 13 ∉ text)
    (bytes : List UInt8) :
    lines (text ++ newline :: bytes) ending = text :: lines bytes ending := by
  rw [lines, cut_piece clean.1, List.cons_append, List.map_cons, withoutCarriageReturn_eq clean.2,
    lines]

/-- Lines that were written one after the other are read one after the other. -/
theorem lines_terminated {texts : List (List UInt8)} (ending : Ending)
    (clean : ∀ text ∈ texts, newline ∉ text ∧ 13 ∉ text) :
    lines (texts.flatMap (· ++ [newline])) ending = texts := by
  have whole : cut newline (texts.flatMap (· ++ [newline])) = (texts, []) :=
    cut_terminated fun text member => (clean text member).1
  have nothing : lastLine [] ending = [] := by cases ending <;> simp [lastLine]
  rw [lines, whole, nothing, List.append_nil]
  refine (List.map_congr_left fun text member => ?_).trans texts.map_id
  exact withoutCarriageReturn_eq (clean text member).2

end Lines

/-- `Framed::new(connection, LinesCodec::new())`, in both directions. -/
structure Framed where
  /-- The codec and its read buffer. -/
  State : Type
  new : State
  /-- What was read and not yielded yet. -/
  buffer : State → List UInt8
  /-- What is yielded once a chunk was read, until more is needed. -/
  read : State → List UInt8 → List (Except LinesCodecError String) × State
  /-- What is yielded where nothing more can be read. -/
  finish : State → Ending → List (Except LinesCodecError String)
  /-- `LinesCodec::encode`. -/
  encode : String → List UInt8

namespace Framed

/-- What the socket yields until it ends. -/
def framesFrom (framed : Framed) (state : framed.State) (ending : Ending) :
    List (List UInt8) → List (Except LinesCodecError String)
  | [] => framed.finish state ending
  | chunk :: chunks =>
      (framed.read state chunk).1 ++ framed.framesFrom (framed.read state chunk).2 ending chunks

def frames (framed : Framed) (chunks : List (List UInt8)) (ending : Ending) :
    List (Except LinesCodecError String) :=
  framed.framesFrom framed.new ending chunks

/-- What becomes of a line. -/
def frame (line : List UInt8) : Except LinesCodecError String :=
  match fromUtf8 line with
  | some text => .ok text
  | none => .error (.io .invalidData)

/-- How an ending is reported. -/
def failure : Ending → List (Except LinesCodecError String)
  | .eof => []
  | .ioError kind => [.error (.io kind)]

/-- Lines are split at newlines, and only their ending is stripped. -/
structure Lawful (framed : Framed) : Prop where
  new_buffer : framed.buffer framed.new = []
  read_buffer : ∀ state chunk, framed.buffer (framed.read state chunk).2 =
    (cut newline (framed.buffer state ++ chunk)).2
  read_lines : ∀ state chunk, (framed.read state chunk).1 =
    ((cut newline (framed.buffer state ++ chunk)).1.map withoutCarriageReturn).map frame
  finish_lines : ∀ state ending, framed.finish state ending =
    ((lastLine (framed.buffer state) ending).map withoutCarriageReturn).map frame ++
      failure ending
  encode_line : ∀ text, framed.encode text = asBytes text ++ [newline]

variable {framed : Framed}

theorem Lawful.framesFrom_eq (lawful : framed.Lawful) (ending : Ending)
    (chunks : List (List UInt8)) : ∀ state, framed.framesFrom state ending chunks =
      (((cutChunks newline (framed.buffer state) chunks).1 ++
        lastLine (cutChunks newline (framed.buffer state) chunks).2 ending).map
          withoutCarriageReturn).map frame ++ failure ending := by
  induction chunks with
  | nil =>
      intro state
      rw [framesFrom, lawful.finish_lines, cutChunks, List.nil_append]
  | cons chunk chunks ih =>
      intro state
      rw [framesFrom, ih, lawful.read_lines, lawful.read_buffer, cutChunks]
      simp only [List.map_append, List.append_assoc]

/-- What the socket yields are the lines of what was read, in any chunking. -/
theorem Lawful.frames_eq (lawful : framed.Lawful) (chunks : List (List UInt8))
    (ending : Ending) : framed.frames chunks ending =
      (lines chunks.flatten ending).map frame ++ failure ending := by
  rw [frames, lawful.framesFrom_eq, lawful.new_buffer, cutChunks_eq chunks [] rfl,
    List.nil_append, lines]

/-- A codec that keeps nothing but its buffer. -/
def buffered : Framed where
  State := List UInt8
  new := []
  buffer := id
  read := fun buffer chunk =>
    (((cut newline (buffer ++ chunk)).1.map withoutCarriageReturn).map frame,
      (cut newline (buffer ++ chunk)).2)
  finish := fun buffer ending =>
    ((lastLine buffer ending).map withoutCarriageReturn).map frame ++ failure ending
  encode := fun text => asBytes text ++ [newline]

theorem buffered_lawful : buffered.Lawful where
  new_buffer := rfl
  read_buffer := fun _ _ => rfl
  read_lines := fun _ _ => rfl
  finish_lines := fun _ _ => rfl
  encode_line := fun _ => rfl

end Framed

/-- What the polls of a stream yield until it ends. -/
abbrev Polls (α : Type) := List (Option α)

namespace Polls

variable {α β ε : Type}

/-- `StreamExt::take_while`. -/
def takeWhile (p : α → Bool) : Polls α → Polls α
  | [] => []
  | none :: _ => [none]
  | some a :: polls => if p a then some a :: takeWhile p polls else []

/-- `StreamExt::map` with a closure that may panic. -/
def map (f : α → Option β) : Polls α → Polls β
  | [] => []
  | none :: _ => [none]
  | some a :: polls =>
      match f a with
      | some b => some b :: map f polls
      | none => [none]

/-- `res.unwrap()`. -/
def unwrap : Except ε α → Option α
  | .ok a => some a
  | .error _ => none

theorem map_total (f : α → β) (xs : List α) :
    map (fun x => some (f x)) (xs.map some) = (xs.map f).map some := by
  induction xs with
  | nil => rfl
  | cons x xs ih => simp only [List.map_cons, map, ih]

/-- Nothing that is taken fails to unwrap. -/
theorem map_unwrap_takeWhile (xs : List (Except ε α)) :
    map unwrap (takeWhile Except.isOk (xs.map some)) =
      (decoded Except.toOption xs).map some := by
  induction xs with
  | nil => rfl
  | cons x xs ih =>
      cases x with
      | error e => rfl
      | ok a => simp [takeWhile, map, unwrap, decoded, Except.isOk, Except.toBool,
          Except.toOption, ih]

end Polls

/-- The category of a `serde_json::Error`. -/
inductive JsonError where
  | badSyntax
  | data

/-- `serde_json::from_str` and `serde_json::to_string` at the type of the messages. -/
structure Serde (M : Type) where
  fromStr : String → Except JsonError M
  toString : M → Except JsonError String

/-- What is printed is one line, and is read again. -/
def Serde.Lawful {M : Type} (serde : Serde M) : Prop :=
  ∀ message, ∃ text, serde.toString message = .ok text ∧ serde.fromStr text = .ok message ∧
    '\n' ∉ text.toList ∧ '\r' ∉ text.toList

/-- The text of a message is not read before its end. -/
def Serde.Delimited {M : Type} (serde : Serde M) : Prop :=
  ∀ message text part, serde.toString message = .ok text → asBytes part <+: asBytes text →
    part ≠ text → (serde.fromStr part).toOption = none

section Connection

variable {Addr Key M : Type}

/-- The stream of `frame_connection`. -/
def incoming (serde : Serde M) (frames : Polls (Except LinesCodecError String)) : Polls M :=
  let stream := frames.takeWhile Except.isOk
  let stream := stream.map Polls.unwrap
  let stream := stream.map fun line => some (serde.fromStr line)
  let stream := stream.takeWhile Except.isOk
  stream.map Polls.unwrap

/-- The stream of a connection on which these chunks are read. -/
def received (serde : Serde M) (framed : Framed) (chunks : List (List UInt8))
    (ending : Ending) : Polls M :=
  incoming serde ((framed.frames chunks ending).map some)

/-- The sink of `frame_connection`: what is written for these messages; `none` when it
    panics. -/
def outgoing (serde : Serde M) (framed : Framed) : List M → Option (List UInt8)
  | [] => some []
  | message :: messages => do
      let line ← Polls.unwrap (serde.toString message)
      let bytes ← outgoing serde framed messages
      some (framed.encode line ++ bytes)

/-- The loop of `spawn_incoming_messages`: the events it sends. The event loop has the receiver,
    so sending does not fail. -/
def readMsgLoop (peer : Peer Addr Key) : Polls M → List (Event Addr Key M)
  | some message :: stream => .newIncomingMessage peer message :: readMsgLoop peer stream
  -- the task is gone, and nothing is sent anymore
  | none :: _ => []
  | [] => [.disconnected peer]

/-- The message a line is for. -/
def decodeLine (serde : Serde M) (line : List UInt8) : Option M :=
  (fromUtf8 line).bind fun text => (serde.fromStr text).toOption

theorem decoded_frames (serde : Serde M) (pieces : List (List UInt8)) (ending : Ending) :
    decoded (fun frame => (Except.toOption frame).bind fun text =>
      (serde.fromStr text).toOption) (pieces.map Framed.frame ++ Framed.failure ending) =
      decoded (decodeLine serde) pieces := by
  rw [decoded_append (by cases ending <;> simp [Framed.failure, Except.toOption]), decoded_map]
  congr 1
  funext piece
  cases made : fromUtf8 piece <;> simp [Framed.frame, decodeLine, made, Except.toOption]

variable {serde : Serde M} {framed : Framed}

/-- The stream yields what the lines decode to up to the first that does not, and no `unwrap`
    in it fires. -/
theorem received_eq (lawful : framed.Lawful) (chunks : List (List UInt8)) (ending : Ending) :
    received serde framed chunks ending =
      (decoded (decodeLine serde) (lines chunks.flatten ending)).map some := by
  simp only [received, incoming, Polls.map_unwrap_takeWhile, Polls.map_total, decoded_map,
    decoded_decoded]
  rw [lawful.frames_eq, decoded_frames]

theorem readMsgLoop_eq (peer : Peer Addr Key) (messages : List M) :
    readMsgLoop peer (messages.map some) =
      messages.map (.newIncomingMessage peer) ++ [.disconnected peer] := by
  induction messages with
  | nil => rfl
  | cons message messages ih =>
      simp only [List.map_cons, readMsgLoop, ih, List.cons_append]

/-- The sink never panics, and what it writes are the lines of its messages, however they
    arrive. -/
theorem outgoing_lines (lawful : framed.Lawful) (printed : serde.Lawful) (messages : List M) :
    ∃ bytes, outgoing serde framed messages = some bytes ∧
      ∀ ending, decoded (decodeLine serde) (lines bytes ending) = messages := by
  choose text shown parsed newlineFree returnFree using printed
  have written : outgoing serde framed messages =
      some ((messages.map fun message => asBytes (text message)).flatMap (· ++ [newline])) := by
    induction messages with
    | nil => rfl
    | cons message messages ih =>
        simp [outgoing, shown, Polls.unwrap, ih, lawful.encode_line]
  refine ⟨_, written, fun ending => ?_⟩
  rw [lines_terminated ending]
  · refine decoded_encoded fun message _ => ?_
    rw [decodeLine, fromUtf8_asBytes, Option.bind_some, parsed]
    rfl
  · intro bytes member
    obtain ⟨message, -, rfl⟩ := List.mem_map.mp member
    exact ⟨notMem_asBytes (by decide) (by decide) (newlineFree message),
      notMem_asBytes (by decide) (by decide) (returnFree message)⟩

/-- What is written for one message after the other. -/
theorem outgoing_append (first second : List M) :
    outgoing serde framed (first ++ second) = (outgoing serde framed first).bind fun bytes =>
      (outgoing serde framed second).map fun more => bytes ++ more := by
  induction first with
  | nil => simp [outgoing]
  | cons message first ih =>
      simp only [List.cons_append, outgoing, ih]
      cases Polls.unwrap (serde.toString message) <;> cases outgoing serde framed first <;>
        cases outgoing serde framed second <;> simp

/-- The end of the file may stand for the newline after a message, and for nothing else. -/
theorem lastLine_prefix (delimited : serde.Delimited) {message : M} {text : String}
    (shown : serde.toString message = .ok text) (parsed : serde.fromStr text = .ok message)
    (clean : 13 ∉ asBytes text) {part : List UInt8} (within : part <+: asBytes text)
    (ending : Ending) (messages : List M) :
    decoded (decodeLine serde) ((lastLine part ending).map withoutCarriageReturn) <+:
      message :: messages := by
  cases ending with
  | ioError kind => exact List.nil_prefix
  | eof =>
      rw [lastLine]
      split_ifs
      · exact List.nil_prefix
      · rw [List.map_singleton, withoutCarriageReturn_eq fun inside => clean (within.subset inside)]
        cases made : decodeLine serde part with
        | none => simp [decoded, made]
        | some read =>
            obtain ⟨line, isText, isRead⟩ := Option.bind_eq_some_iff.mp made
            obtain rfl := fromUtf8_eq_some isText
            have whole : line = text := by
              by_contra short
              cases (delimited message text line shown within short).symm.trans isRead
            subst whole
            rw [parsed] at isRead
            obtain rfl := Option.some.inj isRead
            simp [decoded, made]

/-- Wherever a connection is cut off, nothing is read that was not written. -/
theorem decoded_prefix (lawful : framed.Lawful) (printed : serde.Lawful)
    (delimited : serde.Delimited) (ending : Ending) {messages : List M} {bytes part : List UInt8}
    (written : outgoing serde framed messages = some bytes) (within : part <+: bytes) :
    decoded (decodeLine serde) (lines part ending) <+: messages := by
  induction messages generalizing bytes part with
  | nil =>
      obtain rfl := Option.some.inj written
      obtain rfl := List.prefix_nil.mp within
      cases ending <;> simp [lines, cut, lastLine, decoded]
  | cons message messages ih =>
      obtain ⟨text, shown, parsed, newlineFree, returnFree⟩ := printed message
      have clean : newline ∉ asBytes text ∧ 13 ∉ asBytes text :=
        ⟨notMem_asBytes (by decide) (by decide) newlineFree,
          notMem_asBytes (by decide) (by decide) returnFree⟩
      simp only [outgoing, shown, Polls.unwrap, Option.bind_eq_bind, Option.bind_some,
        Option.bind_eq_some_iff, Option.some.injEq, lawful.encode_line] at written
      obtain ⟨more, written, rfl⟩ := written
      have unended : ∀ part, part <+: asBytes text →
          decoded (decodeLine serde) (lines part ending) <+: message :: messages := by
        intro part within
        rw [lines_unended ending fun inside => clean.1 (within.subset inside)]
        exact lastLine_prefix delimited shown parsed clean.2 within ending messages
      rw [List.append_assoc, List.singleton_append] at within
      rcases List.prefix_or_prefix_of_prefix within (List.prefix_append (asBytes text) _) with
        short | ⟨rest, rfl⟩
      · exact unended part short
      · rcases rest with _ | ⟨byte, rest⟩
        · rw [List.append_nil]
          exact unended _ List.prefix_rfl
        · obtain ⟨rfl, later⟩ := List.cons_prefix_cons.mp
            ((List.prefix_append_right_inj _).mp within)
          have decodes : decodeLine serde (asBytes text) = some message := by
            rw [decodeLine, fromUtf8_asBytes, Option.bind_some, parsed]
            rfl
          rw [lines_ended ending clean, decoded, decodes]
          exact List.cons_prefix_cons.mpr ⟨rfl, ih written later⟩

/-- These messages can be read of these bytes, if the connection is cut off somewhere. -/
def Readable (serde : Serde M) (framed : Framed) (bytes : List UInt8) (messages : List M) : Prop :=
  ∃ chunks ending, chunks.flatten <+: bytes ∧
    received serde framed chunks ending = messages.map some

/-- Just the first of the messages that were written can be read, as many as one likes. -/
theorem readable_iff (lawful : framed.Lawful) (printed : serde.Lawful)
    (delimited : serde.Delimited) {messages read : List M} {bytes : List UInt8}
    (written : outgoing serde framed messages = some bytes) :
    Readable serde framed bytes read ↔ read <+: messages := by
  constructor
  · rintro ⟨chunks, ending, within, same⟩
    rw [received_eq lawful] at same
    obtain rfl := List.map_injective_iff.mpr (fun _ _ => Option.some.inj) same
    exact decoded_prefix lawful printed delimited ending written within
  · rintro ⟨more, rfl⟩
    obtain ⟨first, made, back⟩ := outgoing_lines lawful printed read
    obtain ⟨rest, -, whole⟩ : ∃ rest, _ ∧ first ++ rest = bytes := by
      simpa [outgoing_append, made] using written
    refine ⟨[first], .eof, ?_, ?_⟩
    · simp [← whole]
    · rw [received_eq lawful, List.flatten_singleton, back]

/-- Once the events of a connection were handled, its messages are on the queue of incoming
    messages and its peer is out of the map. -/
theorem handle_connection [DecidableEq Key] (peer : Peer Addr Key) (messages : List M)
    (w : Runtime Addr Key M) :
    (readMsgLoop peer (messages.map some)).foldlM Runtime.handleEvent w =
      some { w with incoming := w.incoming ++ messages.map fun message => (peer, message)
                    peers := w.peers.remove peer.id } := by
  induction messages generalizing w with
  | nil => simp [readMsgLoop, Runtime.handleEvent]
  | cons message messages ih =>
      simp only [List.map_cons, readMsgLoop, List.foldlM_cons, Runtime.handleEvent,
        Option.bind_eq_bind, Option.bind_some, ih, List.append_assoc, List.singleton_append]

end Connection

end Lindy.P2p
