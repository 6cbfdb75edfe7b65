import Lindy.Machine.Json
import Lindy.P2p.Framing
import Lindy.Channel.Derivation
import Lindy.Signing

/-! # The messages between nodes

`Message` as its derived codec writes and reads it, with the codecs of the types of other
crates as parameters, and what arrives when such messages travel over a connection.
-/

namespace Lindy

open Bitcoin Machine P2p

variable {c : Crates}

/-- The codecs that other crates come with. -/
structure FieldCodecs (c : Crates) where
  outPoint : Codec OutPoint
  point : Codec c.Point
  encryptedSignature : Codec c.EncryptedSignature

structure FieldCodecs.Lawful (codecs : FieldCodecs c) : Prop where
  outPoint : codecs.outPoint.Lawful
  point : codecs.point.Lawful
  encryptedSignature : codecs.encryptedSignature.Lawful

namespace FieldCodecs

variable (codecs : FieldCodecs c)

def rsEcdsaNewChannel : Struct (RsEcdsaNewChannel c) where
  names := ["id", "funding_satoshis", "to_self_delay", "feerate_per_kw", "publishing_key"]
  values := fun channel =>
    [codecs.outPoint.serialize channel.id, Codec.u64.serialize channel.fundingSatoshis,
      Codec.u16.serialize channel.toSelfDelay, Codec.u32.serialize channel.feeratePerKw,
      codecs.point.serialize channel.publishingKey]
  ofValues := fun values => match values with
    | [id, fundingSatoshis, toSelfDelay, feeratePerKw, publishingKey] => do
        let id ← codecs.outPoint.deserialize id
        let fundingSatoshis ← Codec.u64.deserialize fundingSatoshis
        let toSelfDelay ← Codec.u16.deserialize toSelfDelay
        let feeratePerKw ← Codec.u32.deserialize feeratePerKw
        let publishingKey ← codecs.point.deserialize publishingKey
        some { id, fundingSatoshis, toSelfDelay, feeratePerKw, publishingKey }
    | _ => none

def rsEcdsaAckNewChannel : Struct (RsEcdsaAckNewChannel c) where
  names := ["id", "commit_sig"]
  values := fun channel =>
    [codecs.outPoint.serialize channel.id,
      codecs.encryptedSignature.serialize channel.commitSig]
  ofValues := fun values => match values with
    | [id, commitSig] => do
        let id ← codecs.outPoint.deserialize id
        let commitSig ← codecs.encryptedSignature.deserialize commitSig
        some { id, commitSig }
    | _ => none

/-- `#[serde(rename_all = "kebab-case", tag = "kind")]` -/
def message : Codec (Message c) where
  serialize := fun message => match message with
    | .rsEcdsaNewChannel channel =>
        .object (("kind", .string "rs-ecdsa-new-channel") ::
          codecs.rsEcdsaNewChannel.members channel)
    | .rsEcdsaAckNewChannel channel =>
        .object (("kind", .string "rs-ecdsa-ack-new-channel") ::
          codecs.rsEcdsaAckNewChannel.members channel)
  deserialize := fun json => do
    let (kind, content) ← tagged "kind" json
    if kind = "rs-ecdsa-new-channel" then
      (codecs.rsEcdsaNewChannel.deserialize content).map .rsEcdsaNewChannel
    else if kind = "rs-ecdsa-ack-new-channel" then
      (codecs.rsEcdsaAckNewChannel.deserialize content).map .rsEcdsaAckNewChannel
    else none

variable {codecs : FieldCodecs c}

theorem rsEcdsaNewChannel_lawful (lawful : codecs.Lawful) :
    codecs.rsEcdsaNewChannel.Lawful where
  distinct := by simp [rsEcdsaNewChannel]
  full := fun _ => rfl
  back := fun channel => by
    simp [rsEcdsaNewChannel, lawful.outPoint channel.id, lawful.point channel.publishingKey,
      Codec.u64_lawful channel.fundingSatoshis, Codec.u16_lawful channel.toSelfDelay,
      Codec.u32_lawful channel.feeratePerKw]

theorem rsEcdsaAckNewChannel_lawful (lawful : codecs.Lawful) :
    codecs.rsEcdsaAckNewChannel.Lawful where
  distinct := by simp [rsEcdsaAckNewChannel]
  full := fun _ => rfl
  back := fun channel => by
    simp [rsEcdsaAckNewChannel, lawful.outPoint channel.id,
      lawful.encryptedSignature channel.commitSig]

theorem message_lawful (lawful : codecs.Lawful) : codecs.message.Lawful := by
  intro message
  cases message with
  | rsEcdsaNewChannel channel =>
      have fresh : "kind" ∉ codecs.rsEcdsaNewChannel.names := by simp [rsEcdsaNewChannel]
      have told := Struct.tagged_members fresh "rs-ecdsa-new-channel" channel
      simp [FieldCodecs.message, told,
        (rsEcdsaNewChannel_lawful lawful).deserialize_members channel]
  | rsEcdsaAckNewChannel channel =>
      have fresh : "kind" ∉ codecs.rsEcdsaAckNewChannel.names := by simp [rsEcdsaAckNewChannel]
      have told := Struct.tagged_members fresh "rs-ecdsa-ack-new-channel" channel
      simp [FieldCodecs.message, told,
        (rsEcdsaAckNewChannel_lawful lawful).deserialize_members channel]

end FieldCodecs

/-- The text of `serde_json`. -/
structure SerdeJson where
  /-- `none` where the text is not JSON. -/
  fromStr : String → Option Json
  toString : Json → String

/-- A value is printed on one line, and the text is read again. -/
structure SerdeJson.Prints (text : SerdeJson) (json : Json) : Prop where
  back : text.fromStr (text.toString json) = some json
  newline : '\n' ∉ (text.toString json).toList
  carriageReturn : '\r' ∉ (text.toString json).toList

/-- `serde_json` at `Message`. -/
def SerdeJson.message (text : SerdeJson) (codecs : FieldCodecs c) : Serde (Message c) where
  fromStr := fun line =>
    match text.fromStr line with
    | none => .error .badSyntax
    | some json =>
        match codecs.message.deserialize json with
        | none => .error .data
        | some message => .ok message
  toString := fun message => .ok (text.toString (codecs.message.serialize message))

theorem SerdeJson.message_lawful {text : SerdeJson} {codecs : FieldCodecs c}
    (prints : ∀ message, text.Prints (codecs.message.serialize message))
    (lawful : codecs.Lawful) : (text.message codecs).Lawful := by
  intro message
  obtain ⟨back, newline, carriageReturn⟩ := prints message
  refine ⟨_, rfl, ?_, newline, carriageReturn⟩
  simp [SerdeJson.message, back, FieldCodecs.message_lawful lawful message]

/-- What is printed of a value is no JSON when its end is missing. -/
def SerdeJson.Closes (text : SerdeJson) (json : Json) : Prop :=
  ∀ part, asBytes part <+: asBytes (text.toString json) → part ≠ text.toString json →
    text.fromStr part = none

theorem SerdeJson.message_delimited {text : SerdeJson} {codecs : FieldCodecs c}
    (closes : ∀ message, text.Closes (codecs.message.serialize message)) :
    (text.message codecs).Delimited := by
  intro message line part printed within short
  obtain rfl : text.toString (codecs.message.serialize message) = line :=
    Except.ok.inj printed
  simp [SerdeJson.message, closes message part within short, Except.toOption]

/-- What is printed of a message decodes to it. -/
theorem SerdeJson.decodeLine_printed {text : SerdeJson} {codecs : FieldCodecs c}
    (lawful : codecs.Lawful) {message : Message c}
    (prints : text.Prints (codecs.message.serialize message)) :
    decodeLine (text.message codecs)
      (asBytes (text.toString (codecs.message.serialize message))) = some message := by
  simp [decodeLine, fromUtf8_asBytes, SerdeJson.message, prints.back,
    FieldCodecs.message_lawful lawful message, Except.toOption]

/-- However the bytes of a connection are chunked and however they end, the events of the
    connection are the messages of the longest run of lines that decode, in line order, and one
    `Disconnected`; no `unwrap` fires on the way, and the handler puts just these messages on
    its queue. The sink never panics either, and what it writes is read as the messages it was
    given. -/
theorem linesDelivered {Addr : Type} (framed : Framed) (text : SerdeJson)
    (codecs : FieldCodecs c) (splits : framed.Lawful) (lawful : codecs.Lawful)
    (prints : ∀ message, text.Prints (codecs.message.serialize message))
    (peer : Peer Addr c.PeerId) :
    (∀ chunks ending, ∃ (messages : List (Message c)) (rest : List (Option (Message c))),
      (lines chunks.flatten ending).map (decodeLine (text.message codecs)) =
        messages.map some ++ rest ∧
      (∀ message, rest.head? ≠ some (some message)) ∧
      none ∉ received (text.message codecs) framed chunks ending ∧
      readMsgLoop peer (received (text.message codecs) framed chunks ending) =
        messages.map (.newIncomingMessage peer) ++ [.disconnected peer] ∧
      ∀ w : Runtime Addr c.PeerId (Message c),
        (readMsgLoop peer (received (text.message codecs) framed chunks ending)).foldlM
          Runtime.handleEvent w =
        some { w with incoming := w.incoming ++ messages.map fun message => (peer, message)
                      peers := w.peers.remove peer.id }) ∧
    ∀ messages, ∃ bytes, outgoing (text.message codecs) framed messages = some bytes ∧
      ∀ chunks ending, chunks.flatten = bytes →
        readMsgLoop peer (received (text.message codecs) framed chunks ending) =
          messages.map (.newIncomingMessage peer) ++ [.disconnected peer] := by
  constructor
  · intro chunks ending
    obtain ⟨rest, decodes, stops⟩ := decoded_spec (decodeLine (text.message codecs))
      (lines chunks.flatten ending)
    rw [received_eq splits]
    exact ⟨_, rest, decodes, stops, by simp, readMsgLoop_eq peer _,
      handle_connection peer _⟩
  · intro messages
    obtain ⟨bytes, written, read⟩ := outgoing_lines splits
      (SerdeJson.message_lawful prints lawful) messages
    refine ⟨bytes, written, fun chunks ending whole => ?_⟩
    rw [received_eq splits, whole, read, readMsgLoop_eq]

section Small

/-- A `serde_json` that knows no values but those of messages. -/
def SerdeJson.ofPrinter (codecs : FieldCodecs c) (print : Message c → String)
    (parse : String → Option (Message c)) : SerdeJson where
  fromStr := fun line => (parse line).map codecs.message.serialize
  toString := fun json => (codecs.message.deserialize json).elim "" print

theorem SerdeJson.ofPrinter_toString {codecs : FieldCodecs c} (lawful : codecs.Lawful)
    (print : Message c → String) (parse : String → Option (Message c)) (message : Message c) :
    (ofPrinter codecs print parse).toString (codecs.message.serialize message) =
      print message := by
  simp only [ofPrinter, FieldCodecs.message_lawful lawful message, Option.elim_some]

theorem SerdeJson.ofPrinter_prints {codecs : FieldCodecs c} (lawful : codecs.Lawful)
    {print : Message c → String} {parse : String → Option (Message c)}
    (back : ∀ message, parse (print message) = some message) {message : Message c}
    (newlineFree : '\n' ∉ (print message).toList) (returnFree : '\r' ∉ (print message).toList) :
    (ofPrinter codecs print parse).Prints (codecs.message.serialize message) := by
  have shown := ofPrinter_toString lawful print parse message
  constructor
  · rw [shown]
    simp only [ofPrinter, back, Option.map_some]
  · rwa [shown]
  · rwa [shown]

/-- Where messages can be counted there is a `serde_json` that prints one of them as a given
    line with a colon. -/
theorem exists_prints [Countable (Message c)] {codecs : FieldCodecs c} (lawful : codecs.Lawful)
    (first : Message c) {line : String} (newlineFree : '\n' ∉ line.toList)
    (returnFree : '\r' ∉ line.toList) (colon : ':' ∈ line.toList) :
    ∃ text : SerdeJson, (∀ message, text.Prints (codecs.message.serialize message)) ∧
      text.toString (codecs.message.serialize first) = line := by
  have distinct : Function.Injective fun n => String.ofList (List.replicate n 'x') := by
    intro m n same
    simpa using congrArg (fun text => text.toList.length) same
  have others : ∀ n, String.ofList (List.replicate n 'x') ≠ line := by
    rintro n rfl
    simp at colon
  obtain ⟨print, injective, shown, named⟩ := Codec.exists_naming first line distinct others
  have clean (message : Message c) : '\n' ∉ (print message).toList ∧
      '\r' ∉ (print message).toList := by
    rcases named message with same | ⟨n, same⟩
    · exact same ▸ ⟨newlineFree, returnFree⟩
    · simp [same]
  have back := Function.partialInv_left injective
  exact ⟨.ofPrinter codecs print (Function.partialInv print),
    fun message => SerdeJson.ofPrinter_prints lawful back (clean message).1 (clean message).2,
    (SerdeJson.ofPrinter_toString lawful print _ first).trans shown⟩

instance countableUInt16 : Countable UInt16 :=
  Function.Injective.countable fun _ _ => UInt16.toNat_inj.mp

/-- A message is one of two tuples. -/
theorem countable_message [Countable c.Point] [Countable c.EncryptedSignature] :
    Countable (Message c) := by
  let tuple : Message c → (OutPoint × UInt64 × UInt16 × UInt32 × c.Point) ⊕
      (OutPoint × c.EncryptedSignature)
    | .rsEcdsaNewChannel ⟨id, value, delay, feerate, key⟩ => .inl (id, value, delay, feerate, key)
    | .rsEcdsaAckNewChannel ⟨id, commitSig⟩ => .inr (id, commitSig)
  refine Function.Injective.countable (f := tuple) fun x y same => ?_
  rcases x with ⟨⟨⟩⟩ | ⟨⟨⟩⟩ <;> rcases y with ⟨⟨⟩⟩ | ⟨⟨⟩⟩ <;> simp_all [tuple]

def smallLine : String :=
  "\x7b\"kind\":\"rs-ecdsa-new-channel\"," ++
  "\"id\":\"0000000000000000000000000000000000000000000000000000000000000005:0\"," ++
  "\"funding_satoshis\":100000,\"to_self_delay\":20,\"feerate_per_kw\":93000," ++
  "\"publishing_key\":\"04\"\x7d"

theorem smallLine_unbroken : '\n' ∉ smallLine.toList ∧ '\r' ∉ smallLine.toList := by
  unfold smallLine
  simp only [String.toList_append, List.mem_append, not_or, -String.reduceAppend]
  refine ⟨⟨⟨⟨?_, ?_⟩, ?_⟩, ?_⟩, ⟨⟨?_, ?_⟩, ?_⟩, ?_⟩ <;> rw [String.toList_ofList] <;> decide

theorem smallLine_colon : ':' ∈ smallLine.toList := by
  unfold smallLine
  simp only [String.toList_append, List.mem_append, -String.reduceAppend]
  right
  rw [String.toList_ofList]
  decide

def smallMessage : Message smallCrates :=
  .rsEcdsaNewChannel ⟨⟨5, 0⟩, 100000, 20, 93000, smallBob.id.1⟩

def smallJson : Json :=
  .object [("kind", .string "rs-ecdsa-new-channel"),
    ("id", .string "0000000000000000000000000000000000000000000000000000000000000005:0"),
    ("funding_satoshis", .number 100000), ("to_self_delay", .number 20),
    ("feerate_per_kw", .number 93000), ("publishing_key", .string "04")]

instance countablePoint : Countable smallCrates.Point := inferInstanceAs (Countable (ZMod 101))

instance countableSignature : Countable smallCrates.EncryptedSignature :=
  inferInstanceAs (Countable (ZMod 101 × ZMod 101 × List UInt8))

theorem exists_smallCodecs : ∃ codecs : FieldCodecs smallCrates,
    codecs.Lawful ∧ codecs.message.serialize smallMessage = smallJson := by
  obtain ⟨outPoint, outPoint_lawful, shownId⟩ := Codec.exists_lawful (⟨5, 0⟩ : OutPoint)
    "0000000000000000000000000000000000000000000000000000000000000005:0"
  obtain ⟨point, point_lawful, shownKey⟩ := Codec.exists_lawful smallBob.id.1 "04"
  obtain ⟨signature, signature_lawful, -⟩ := Codec.exists_lawful
    (show smallCrates.EncryptedSignature from (1, 1, [])) ""
  refine ⟨⟨outPoint, point, signature⟩, ⟨outPoint_lawful, point_lawful, signature_lawful⟩, ?_⟩
  simp only [FieldCodecs.message, smallMessage, Struct.members, FieldCodecs.rsEcdsaNewChannel,
    shownId, shownKey]
  rfl

/-- A line that is no text cuts off what comes after it; what two messages are written as is
    read as these two. -/
theorem linesDelivered_small : ∃ (codecs : FieldCodecs smallCrates) (text : SerdeJson),
    codecs.message.serialize smallMessage = smallJson ∧ text.toString smallJson = smallLine ∧
    readMsgLoop (⟨(), smallBob.id⟩ : Peer Unit smallCrates.PeerId)
        (received (text.message codecs) .buffered
          [asBytes smallLine ++ [newline, 255], newline :: asBytes smallLine, [newline]] .eof) =
      [.newIncomingMessage ⟨(), smallBob.id⟩ smallMessage, .disconnected ⟨(), smallBob.id⟩] ∧
    ∃ bytes, outgoing (text.message codecs) .buffered [smallMessage, smallMessage] = some bytes ∧
      readMsgLoop (⟨(), smallBob.id⟩ : Peer Unit smallCrates.PeerId)
          (received (text.message codecs) .buffered [bytes] .eof) =
        [.newIncomingMessage ⟨(), smallBob.id⟩ smallMessage,
          .newIncomingMessage ⟨(), smallBob.id⟩ smallMessage,
          .disconnected ⟨(), smallBob.id⟩] := by
  have messages : Countable (Message smallCrates) := countable_message
  obtain ⟨codecs, lawful, json⟩ := exists_smallCodecs
  obtain ⟨newlineFree, returnFree⟩ := smallLine_unbroken
  obtain ⟨text, prints, shown⟩ := exists_prints lawful smallMessage newlineFree returnFree
    smallLine_colon
  obtain ⟨reads, writes⟩ := linesDelivered .buffered text codecs Framed.buffered_lawful lawful
    prints ⟨(), smallBob.id⟩
  have decodes : decodeLine (text.message codecs) (asBytes smallLine) = some smallMessage :=
    shown ▸ SerdeJson.decodeLine_printed lawful (prints smallMessage)
  refine ⟨codecs, text, json, json ▸ shown, ?_, ?_⟩
  · obtain ⟨messages, rest, parts, stops, -, events, -⟩ := reads
      [asBytes smallLine ++ [newline, 255], newline :: asBytes smallLine, [newline]] .eof
    have whole : [asBytes smallLine ++ [newline, 255], newline :: asBytes smallLine,
        [newline]].flatten =
        [asBytes smallLine, [255], asBytes smallLine].flatMap (· ++ [newline]) := by simp
    have printed : newline ∉ asBytes smallLine ∧ 13 ∉ asBytes smallLine :=
      ⟨notMem_asBytes (by decide) (by decide) newlineFree,
        notMem_asBytes (by decide) (by decide) returnFree⟩
    have clean : ∀ bytes ∈ [asBytes smallLine, [255], asBytes smallLine],
        newline ∉ bytes ∧ 13 ∉ bytes := by
      simp only [List.forall_mem_cons]
      exact ⟨printed, by decide, printed, List.forall_mem_nil _⟩
    have noText : fromUtf8 [255] = none := by decide
    have undecodable : decodeLine (text.message codecs) [255] = none := by
      rw [decodeLine, noText, Option.bind_none]
    rw [whole, lines_terminated .eof clean] at parts
    rw [events]
    -- the second line bounds the run, and the first is in it
    rcases messages with _ | ⟨message, _ | ⟨message', messages⟩⟩
    · simp only [List.map_nil, List.nil_append] at parts
      simp [← parts, decodes] at stops
    · simp [decodes, undecodable] at parts
      rw [← parts.1]
      rfl
    · simp [undecodable] at parts
  · obtain ⟨bytes, written, read⟩ := writes [smallMessage, smallMessage]
    exact ⟨bytes, written, read [bytes] .eof (by simp)⟩

end Small

end Lindy
