import Lindy.Crates

/-! # Funding transactions

`funder.rs`. The wallet is a parameter: asked to pay a script some value, it answers with an
unsigned PSBT or an error.
-/

namespace Lindy

open Bitcoin

variable {c : Crates}

/-- A channel is named after the output that funds it. -/
abbrev ChannelId := OutPoint

/-- `wallet.create_tx(TxBuilder::new().add_recipient(script_pubkey, value))`. -/
abbrev Wallet (c : Crates) := Script → UInt64 → Except c.BdkError c.Psbt

structure FundTx (c : Crates) where
  descriptor : c.Descriptor
  psbt : c.Psbt

/-- `Funder::create_fund_transaction` of a wallet. -/
def createFundTransaction (wallet : Wallet c) (value : UInt64) (descriptor : c.Descriptor) :
    Except c.BdkError (FundTx c) := do
  let psbt ← wallet (c.scriptPubkey descriptor) value
  pure ⟨descriptor, psbt⟩

/-- A recipient is added once and gets what was asked for. The outputs of a transaction are
    numbered with 32 bits. -/
structure Wallet.Pays (wallet : Wallet c) : Prop where
  once : ∀ {script value psbt}, wallet script value = .ok psbt →
    psbt.unsignedTx.output.filter (fun output => output.scriptPubkey = script) =
      [⟨value, script⟩]
  numbered : ∀ {script value psbt}, wallet script value = .ok psbt →
    psbt.unsignedTx.output.length ≤ 2 ^ 32

namespace FundTx

/-- `channel_id`; `none` when no output has the script. -/
def channelId (fundTx : FundTx c) : Option ChannelId := do
  let scriptPubkey := c.scriptPubkey fundTx.descriptor
  let i ← fundTx.psbt.unsignedTx.output.findIdx? fun o => o.scriptPubkey == scriptPubkey
  some ⟨c.txid (c.extractTx fundTx.psbt), UInt32.ofNat i⟩

/-- `output_value`; `none` when `channel_id` or the index panics. -/
def outputValue (fundTx : FundTx c) : Option UInt64 := do
  let channelId ← fundTx.channelId
  let output ← fundTx.psbt.unsignedTx.output[channelId.vout.toNat]?
  some output.value

/-- `matches`; `none` when it panics. -/
def matchesTx (fundTx : FundTx c) (tx : Transaction) : Option Bool := do
  let channelId ← fundTx.channelId
  match tx.output[channelId.vout.toNat]? with
  | some output =>
      if c.txid tx = channelId.txid then
        let value ← fundTx.outputValue
        some (output.value = value && output.scriptPubkey = c.scriptPubkey fundTx.descriptor)
      else some false
  | none => some false

/-- The funding output carries what was asked for. -/
theorem outputValue_of_pays {wallet : Wallet c} (pays : Wallet.Pays wallet)
    {descriptor : c.Descriptor} {value : UInt64} {psbt : c.Psbt}
    (paid : wallet (c.scriptPubkey descriptor) value = .ok psbt) :
    outputValue ⟨descriptor, psbt⟩ = some value := by
  have once := pays.once paid
  have numbered := pays.numbered paid
  have funding : (⟨value, c.scriptPubkey descriptor⟩ : TxOut) ∈ psbt.unsignedTx.output := by
    have : (⟨value, c.scriptPubkey descriptor⟩ : TxOut) ∈ psbt.unsignedTx.output.filter
        (fun output => output.scriptPubkey = c.scriptPubkey descriptor) := by simp [once]
    exact (List.mem_filter.mp this).1
  obtain ⟨i, found⟩ : ∃ i, psbt.unsignedTx.output.findIdx?
      (fun output => output.scriptPubkey == c.scriptPubkey descriptor) = some i := by
    rw [← Option.isSome_iff_exists, List.findIdx?_isSome, List.any_eq_true]
    exact ⟨_, funding, by simp⟩
  obtain ⟨inside, script, -⟩ := List.findIdx?_eq_some_iff_getElem.mp found
  have small : i < 2 ^ 32 := by omega
  have index : (UInt32.ofNat i).toNat = i := UInt32.toNat_ofNat_of_lt' small
  have only : psbt.unsignedTx.output[i] ∈ [(⟨value, c.scriptPubkey descriptor⟩ : TxOut)] := by
    rw [← once, List.mem_filter]
    exact ⟨List.getElem_mem inside, by simpa using script⟩
  simp only [outputValue, channelId, found, Option.bind_eq_bind, Option.bind_some, index,
    List.getElem?_eq_getElem inside, List.mem_singleton.mp only]

end FundTx

end Lindy
