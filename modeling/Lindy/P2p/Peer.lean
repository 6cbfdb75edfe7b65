import Lindy.Machine.Json
import Lindy.P2p.Event

/-! # The text of a peer

`Display`, `FromStr` and the codec of `Peer`. How keys and socket addresses are written and read
is a parameter.
-/

namespace Lindy.P2p

open Machine

/-- `Display` and `FromStr` of `XOnly` and of `SocketAddr`. -/
structure PeerTexts (Addr Key : Type) where
  KeyError : Type
  AddrError : Type
  displayKey : Key → String
  keyFromStr : String → Except KeyError Key
  displayAddr : Addr → String
  addrFromStr : String → Except AddrError Addr

/-- What is displayed is read again, and nothing with an `@` in it is read. -/
structure PeerTexts.Lawful {Addr Key : Type} (texts : PeerTexts Addr Key) : Prop where
  key_back : ∀ key, texts.keyFromStr (texts.displayKey key) = .ok key
  addr_back : ∀ addr, texts.addrFromStr (texts.displayAddr addr) = .ok addr
  key_plain : ∀ text key, texts.keyFromStr text = .ok key → '@' ∉ text.toList
  addr_plain : ∀ text addr, texts.addrFromStr text = .ok addr → '@' ∉ text.toList

/-- What `from_str` turns into an `anyhow::Error`. -/
inductive PeerError {Addr Key : Type} (texts : PeerTexts Addr Key) where
  | key (error : texts.KeyError)
  | anyhow (message : String)
  | addr (error : texts.AddrError)

namespace Peer

variable {Addr Key : Type} (texts : PeerTexts Addr Key)

/-- `write!(f, "{}@{}", &self.key, &self.addr)` -/
def display (peer : Peer Addr Key) : String :=
  texts.displayKey peer.key ++ "@" ++ texts.displayAddr peer.addr

/-- `Peer::from_str`; `none` when the `unwrap` of the first segment panics. Segments after the
    second one are not looked at. -/
def fromStr (string : String) : Option (Except (PeerError texts) (Peer Addr Key)) :=
  match (string.toList.splitOn '@').map String.ofList with
  | [] => none
  | first :: segments => some do
      let key ← (texts.keyFromStr first).mapError .key
      let second ← (segments[0]?).elim (throw (.anyhow "missing remote key")) pure
      let addr ← (texts.addrFromStr second).mapError .addr
      pure { addr, key }

/-- `#[serde(try_from = "String", into = "String")]` -/
def codec : Codec (Peer Addr Key) where
  serialize := fun peer => .string (peer.display texts)
  deserialize := fun json => match json with
    | .string text => (fromStr texts text).bind Except.toOption
    | _ => none

/-- A text is a key, one `@` and an address. -/
def Written (string : String) (peer : Peer Addr Key) : Prop :=
  ∃ key addr, string = key ++ "@" ++ addr ∧ texts.keyFromStr key = .ok peer.key ∧
    texts.addrFromStr addr = .ok peer.addr

/-- A text goes on with another `@` after a key, an `@` and an address. -/
def Trailing (string : String) (peer : Peer Addr Key) : Prop :=
  ∃ key addr rest, string = key ++ "@" ++ addr ++ "@" ++ rest ∧
    texts.keyFromStr key = .ok peer.key ∧ texts.addrFromStr addr = .ok peer.addr

variable {texts} {string : String} {peer : Peer Addr Key}

theorem fromStr_total (string : String) : ∃ result, fromStr texts string = some result := by
  cases split : string.toList.splitOn '@' with
  | nil => exact absurd split (List.splitOn_ne_nil _ _)
  | cons first segments => exact ⟨_, by rw [fromStr, split]; rfl⟩

/-- The first two segments are what is read. -/
theorem fromStr_eq_ok : fromStr texts string = some (.ok peer) ↔
    ∃ first second rest, string.toList.splitOn '@' = first :: second :: rest ∧
      texts.keyFromStr (.ofList first) = .ok peer.key ∧
      texts.addrFromStr (.ofList second) = .ok peer.addr := by
  obtain ⟨addr, key⟩ := peer
  rcases split : string.toList.splitOn '@' with _ | ⟨first, _ | ⟨second, rest⟩⟩
  · exact absurd split (List.splitOn_ne_nil _ _)
  · cases read : texts.keyFromStr (.ofList first) <;>
      simp [fromStr, split, read, Except.mapError, bind, Except.bind, throw, throwThe,
        MonadExceptOf.throw]
  · cases read : texts.keyFromStr (.ofList first) <;>
      cases read' : texts.addrFromStr (.ofList second) <;>
      simp [fromStr, split, read, read', Except.mapError, bind, Except.bind, pure, Except.pure,
        and_comm]

/-- A text is accepted just when it is written as a key, one `@` and an address, or goes on
    with another `@` after that. -/
theorem fromStr_eq_ok_iff (lawful : texts.Lawful) : fromStr texts string = some (.ok peer) ↔
    Written texts string peer ∨ Trailing texts string peer := by
  rw [fromStr_eq_ok]
  constructor
  · rintro ⟨first, second, rest, split, key, addr⟩
    have whole : ['@'].intercalate (string.toList.splitOn '@') = string.toList :=
      List.intercalate_splitOn '@'
    rw [split] at whole
    cases rest with
    | nil =>
        refine .inl ⟨_, _, String.toList_inj.mp ?_, key, addr⟩
        simp [← whole]
    | cons third rest =>
        refine .inr ⟨_, _, .ofList (['@'].intercalate (third :: rest)),
          String.toList_inj.mp ?_, key, addr⟩
        simp [← whole, List.intercalate]
  · rintro (⟨key, addr, rfl, readKey, readAddr⟩ | ⟨key, addr, rest, rfl, readKey, readAddr⟩)
    · refine ⟨key.toList, addr.toList, [], ?_, by simpa using readKey, by simpa using readAddr⟩
      have plain := lawful.key_plain _ _ readKey
      have plain' := lawful.addr_plain _ _ readAddr
      simp [List.splitOn_append_cons_self_of_not_mem plain, List.splitOn_eq_singleton plain']
    · refine ⟨key.toList, addr.toList, rest.toList.splitOn '@', ?_, by simpa using readKey,
        by simpa using readAddr⟩
      have plain := lawful.key_plain _ _ readKey
      have plain' := lawful.addr_plain _ _ readAddr
      simp [List.splitOn_append_cons_self_of_not_mem plain,
        List.splitOn_append_cons_self_of_not_mem plain']

theorem Written.single (lawful : texts.Lawful) (written : Written texts string peer) :
    string.toList.count '@' = 1 := by
  obtain ⟨key, addr, rfl, readKey, readAddr⟩ := written
  have plain := List.count_eq_zero.mpr (lawful.key_plain _ _ readKey)
  have plain' := List.count_eq_zero.mpr (lawful.addr_plain _ _ readAddr)
  simp [plain, plain']

theorem Trailing.several (trailing : Trailing texts string peer) :
    2 ≤ string.toList.count '@' := by
  obtain ⟨key, addr, rest, rfl, -, -⟩ := trailing
  have one : "@".toList.count '@' = 1 := by simp
  simp only [String.toList_append, List.count_append, one]
  omega

/-- What is displayed is written as a text should be. -/
theorem display_written (lawful : texts.Lawful) (peer : Peer Addr Key) :
    Written texts (peer.display texts) peer :=
  ⟨_, _, rfl, lawful.key_back _, lawful.addr_back _⟩

theorem fromStr_display (lawful : texts.Lawful) (peer : Peer Addr Key) :
    fromStr texts (peer.display texts) = some (.ok peer) :=
  (fromStr_eq_ok_iff lawful).mpr (.inl (display_written lawful peer))

theorem display_injective (lawful : texts.Lawful) :
    Function.Injective (Peer.display texts) := by
  intro peer peer' same
  have read := fromStr_display lawful peer
  rw [same, fromStr_display lawful peer'] at read
  exact (Except.ok.inj (Option.some.inj read)).symm

theorem codec_lawful (lawful : texts.Lawful) : (codec texts).Lawful := by
  intro peer
  simp only [codec, fromStr_display lawful peer, Option.bind_some]
  rfl

/-- Every peer is read back from its text, and no two peers share one. Which peer a text is
    read as is what stands in it, as long as it does not go on with another `@` after a key and
    an address: that rest is dropped. -/
theorem textFormat (lawful : texts.Lawful) :
    (∀ peer, fromStr texts (peer.display texts) = some (.ok peer)) ∧
    (codec texts).Lawful ∧ Function.Injective (Peer.display texts) ∧
    ∀ string, (∃ result, fromStr texts string = some result) ∧
      ((∀ peer, fromStr texts string = some (.ok peer) ↔ Written texts string peer) ↔
        ¬ ∃ peer, Trailing texts string peer) ∧
      (2 ≤ string.toList.count '@' →
        ((∀ peer, fromStr texts string ≠ some (.ok peer)) ↔
          ¬ ∃ peer, Trailing texts string peer)) := by
  refine ⟨fromStr_display lawful, codec_lawful lawful, display_injective lawful, fun string =>
    ⟨fromStr_total string, ?_, fun several => ?_⟩⟩
  · constructor
    · rintro precise ⟨peer, trailing⟩
      have written := (precise peer).mp ((fromStr_eq_ok_iff lawful).mpr (.inr trailing))
      have single := written.single lawful
      have several := trailing.several
      omega
    · intro apart peer
      rw [fromStr_eq_ok_iff lawful]
      exact or_iff_left fun trailing => apart ⟨peer, trailing⟩
  · constructor
    · rintro refused ⟨peer, trailing⟩
      exact refused peer ((fromStr_eq_ok_iff lawful).mpr (.inr trailing))
    · intro apart peer read
      rcases (fromStr_eq_ok_iff lawful).mp read with written | trailing
      · have single := written.single lawful
        omega
      · exact apart ⟨peer, trailing⟩

section Small

def smallKeyText : String := "79be667ef9dcbbac55a06295ce870b07029bfcdb2dce28d959f2815b16f81798"

def smallAddrText : String := "127.0.0.1:9735"

/-- One key and one address. -/
def smallTexts : PeerTexts Unit Unit where
  KeyError := Unit
  AddrError := Unit
  displayKey := fun _ => smallKeyText
  keyFromStr := fun text => if text = smallKeyText then .ok () else .error ()
  displayAddr := fun _ => smallAddrText
  addrFromStr := fun text => if text = smallAddrText then .ok () else .error ()

theorem smallTexts_lawful : smallTexts.Lawful where
  key_back := fun _ => by simp [smallTexts]
  addr_back := fun _ => by simp [smallTexts]
  key_plain := by
    intro text key read
    by_cases same : text = smallKeyText
    · rw [same, smallKeyText, String.toList_ofList]
      decide
    · exact absurd ((if_neg same).symm.trans read) (by simp)
  addr_plain := by
    intro text addr read
    by_cases same : text = smallAddrText
    · rw [same, smallAddrText, String.toList_ofList]
      decide
    · exact absurd ((if_neg same).symm.trans read) (by simp)

/-- Everything after a second `@` is dropped without a word. -/
theorem trailingAccepted :
    fromStr smallTexts (smallKeyText ++ "@" ++ smallAddrText ++ "@" ++ "10.0.0.1:1") =
      some (.ok ⟨(), ()⟩) ∧
    ¬ ∀ peer, fromStr smallTexts
        (smallKeyText ++ "@" ++ smallAddrText ++ "@" ++ "10.0.0.1:1") = some (.ok peer) ↔
      Written smallTexts (smallKeyText ++ "@" ++ smallAddrText ++ "@" ++ "10.0.0.1:1") peer := by
  have trailing : Trailing smallTexts
      (smallKeyText ++ "@" ++ smallAddrText ++ "@" ++ "10.0.0.1:1") ⟨(), ()⟩ :=
    ⟨_, _, _, rfl, smallTexts_lawful.key_back (), smallTexts_lawful.addr_back ()⟩
  have accepted := (fromStr_eq_ok_iff smallTexts_lawful).mpr (.inr trailing)
  refine ⟨accepted, fun precise => ?_⟩
  have single := ((precise _).mp accepted).single smallTexts_lawful
  have several := trailing.several
  omega

/-- The peer is read from its own text, and from nothing with a third segment but the texts
    that start with it. -/
theorem textFormat_small :
    fromStr smallTexts (smallKeyText ++ "@" ++ smallAddrText) = some (.ok ⟨(), ()⟩) ∧
    ∀ peer, fromStr smallTexts "@@" ≠ some (.ok peer) := by
  obtain ⟨back, -, -, texts⟩ := textFormat smallTexts_lawful
  refine ⟨back ⟨(), ()⟩, ((texts "@@").2.2 (by decide +kernel)).mpr ?_⟩
  rintro ⟨peer, trailing⟩
  have accepted := (fromStr_eq_ok_iff smallTexts_lawful).mpr (.inr trailing)
  have refused : fromStr smallTexts "@@" = some (.error (.key ())) := rfl
  cases refused.symm.trans accepted

end Small

end Peer

end Lindy.P2p
