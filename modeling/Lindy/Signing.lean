import Lindy.Crates.Small
import Lindy.Funder
import Mathlib.Tactic.DeriveCountable

/-! # The channel id and the signed transaction

A channel is named after a transaction that is not signed yet. The name is that of the
transaction on chain only where signing leaves the input scripts empty.
-/

namespace Lindy

open Bitcoin

/-- How the output an input spends is locked. -/
inductive InputKind where
  | nativeSegwit | wrappedSegwit | legacy
  deriving DecidableEq

/-- The input is final in the way its kind requires: only native segwit has an empty script,
    the others push a redeem script or a signature. -/
def InputKind.Finalises {Key : Type} (kind : InputKind) (input : PsbtInput Key) : Prop :=
  match kind with
  | .nativeSegwit => input.finalScriptSig.getD [] = []
  | .wrappedSegwit | .legacy => ∃ script, input.finalScriptSig = some script ∧ script ≠ []

namespace Bitcoin.Psbt

variable {Key : Type}

/-- What a wallet answers: nothing is final yet, and the outputs can be numbered. -/
structure AsCreated (psbt : Psbt Key) : Prop where
  inputs : psbt.inputs.length = psbt.unsignedTx.input.length
  bare : ∀ input ∈ psbt.inputs, input.finalScriptSig = none
  fewOutputs : psbt.unsignedTx.output.length ≤ 2 ^ 32

/-- A later version of a PSBT: what its inputs say may have changed. -/
structure Finalised (psbt signed : Psbt Key) : Prop where
  sameTx : signed.unsignedTx = psbt.unsignedTx
  inputs : signed.inputs.length = psbt.inputs.length

/-- Finalising leaves the inputs alone, witnesses apart, exactly when it adds no script. -/
theorem finalInput_bare_iff (inputs : List TxIn) (psbtInputs : List (PsbtInput Key))
    (same : psbtInputs.length = inputs.length) :
    (List.zipWith finalInput inputs psbtInputs).map (fun input => { input with witness := [] }) =
        inputs.map (fun input => { input with scriptSig := [], witness := [] }) ↔
      ∀ psbtInput ∈ psbtInputs, psbtInput.finalScriptSig.getD [] = [] := by
  induction inputs generalizing psbtInputs with
  | nil =>
      obtain rfl := List.length_eq_zero_iff.mp same
      simp
  | cons input inputs ih =>
      cases psbtInputs with
      | nil => simp at same
      | cons psbtInput psbtInputs =>
          simp only [List.zipWith_cons_cons, List.map_cons, List.cons.injEq, List.mem_cons,
            forall_eq_or_imp, ih psbtInputs (Nat.succ.inj same)]
          simp [finalInput]

theorem extracted_bare_iff {psbt signed : Psbt Key} (created : psbt.AsCreated)
    (finalised : psbt.Finalised signed) :
    signed.extracted.withoutWitness = psbt.extracted.withoutWitness ↔
      ∀ input ∈ signed.inputs, input.finalScriptSig.getD [] = [] := by
  have unsigned := (finalInput_bare_iff psbt.unsignedTx.input psbt.inputs created.inputs).mpr
    (fun input member => by rw [created.bare input member]; rfl)
  have same : signed.inputs.length = psbt.unsignedTx.input.length :=
    finalised.inputs.trans created.inputs
  have final : signed.unsignedTx.input.length = psbt.unsignedTx.input.length := by
    rw [finalised.sameTx]
  rw [extracted_full created.inputs, extracted_full (same.trans final.symm),
    ← finalInput_bare_iff psbt.unsignedTx.input signed.inputs same, ← unsigned]
  simp only [Transaction.withoutWitness, finalised.sameTx, Transaction.mk.injEq, true_and,
    and_true]

end Bitcoin.Psbt

variable {c : Crates}

namespace FundTx

/-- The output a channel is named after. -/
theorem channelId_output {fundTx : FundTx c} {id : ChannelId}
    (few : fundTx.psbt.unsignedTx.output.length ≤ 2 ^ 32)
    (named : fundTx.channelId = some id) :
    id.txid = c.txid (c.extractTx fundTx.psbt) ∧
      ∃ value, fundTx.psbt.unsignedTx.output[id.vout.toNat]? =
        some ⟨value, c.scriptPubkey fundTx.descriptor⟩ := by
  simp only [channelId, Option.bind_eq_bind, Option.bind_eq_some_iff, Option.some.injEq] at named
  obtain ⟨i, found, rfl⟩ := named
  obtain ⟨inside, script, -⟩ := List.findIdx?_eq_some_iff_getElem.mp found
  have number : (UInt32.ofNat i).toNat = i := UInt32.toNat_ofNat_of_lt' (by
    have := lt_of_lt_of_le inside few
    simpa using this)
  refine ⟨rfl, fundTx.psbt.unsignedTx.output[i].value, ?_⟩
  rw [number, List.getElem?_eq_getElem inside]
  exact congrArg (fun script => some (TxOut.mk _ script)) (beq_iff_eq.mp script)

/-- The id of the channel names the funding output of the final transaction. -/
def Survives (fundTx : FundTx c) (signed : c.Psbt) : Prop :=
  ∃ id value, fundTx.channelId = some id ∧ c.txid (c.extractTx signed) = id.txid ∧
    (c.extractTx signed).output[id.vout.toNat]? =
      some ⟨value, c.scriptPubkey fundTx.descriptor⟩

theorem survives_iff (psbts : c.LawfulPsbt) (txids : c.LawfulTxid) {fundTx : FundTx c}
    {signed : c.Psbt} {id : ChannelId} (created : fundTx.psbt.AsCreated)
    (named : fundTx.channelId = some id) (finalised : fundTx.psbt.Finalised signed) :
    fundTx.Survives signed ↔ ∀ input ∈ signed.inputs, input.finalScriptSig.getD [] = [] := by
  obtain ⟨txid, value, output⟩ := channelId_output created.fewOutputs named
  rw [← Psbt.extracted_bare_iff created finalised, ← txids, ← psbts.extract, ← psbts.extract,
    ← txid]
  constructor
  · rintro ⟨id', value', named', survived, -⟩
    obtain rfl : id = id' := Option.some.inj (named.symm.trans named')
    exact survived
  · intro survived
    refine ⟨id, value, named, survived, ?_⟩
    rw [psbts.extract, Psbt.extracted_output, finalised.sameTx]
    exact output

/-- When every input is final as its kind requires, no script was added exactly when all of
    them are native segwit. -/
theorem bare_iff_native {Key : Type} {kinds : List InputKind} {inputs : List (PsbtInput Key)}
    (final : List.Forall₂ InputKind.Finalises kinds inputs) :
    (∀ input ∈ inputs, input.finalScriptSig.getD [] = []) ↔
      ∀ kind ∈ kinds, kind = .nativeSegwit := by
  induction final with
  | nil => simp
  | @cons kind input kinds inputs finalises rest ih =>
      simp only [List.mem_cons, forall_eq_or_imp, ih]
      refine and_congr_left fun _ => ?_
      cases kind with
      | nativeSegwit => exact iff_of_true finalises rfl
      | wrappedSegwit | legacy =>
          obtain ⟨script, final, pushed⟩ := finalises
          simp [final, pushed]

/-- The id survives signing exactly when no input gets a script, which for inputs final as
    their kinds require is when all of them are native segwit. -/
theorem idSurvivesSigning (psbts : c.LawfulPsbt) (txids : c.LawfulTxid) {wallet : Wallet c}
    (creates : ∀ script value psbt, wallet script value = .ok psbt → psbt.AsCreated)
    {value : UInt64} {descriptor : c.Descriptor} {fundTx : FundTx c} {id : ChannelId}
    (made : createFundTransaction wallet value descriptor = .ok fundTx)
    (named : fundTx.channelId = some id) {signed : c.Psbt}
    (finalised : fundTx.psbt.Finalised signed) :
    (fundTx.Survives signed ↔ ∀ input ∈ signed.inputs, input.finalScriptSig.getD [] = []) ∧
    ∀ kinds, List.Forall₂ InputKind.Finalises kinds signed.inputs →
      (fundTx.Survives signed ↔ ∀ kind ∈ kinds, kind = .nativeSegwit) := by
  have created : fundTx.psbt.AsCreated := by
    unfold createFundTransaction at made
    cases answered : wallet (c.scriptPubkey descriptor) value with
    | error error => simp [answered, bind, Except.bind] at made
    | ok psbt =>
        simp only [answered, bind, Except.bind, pure, Except.pure, Except.ok.injEq] at made
        subst made
        exact creates _ _ _ answered
  have survives := survives_iff psbts txids created named finalised
  exact ⟨survives, fun kinds final => survives.trans (bare_iff_native final)⟩

end FundTx

section Small

instance countableUInt8 : Countable UInt8 :=
  Function.Injective.countable fun _ _ => UInt8.toNat_inj.mp

instance countableUInt32 : Countable UInt32 :=
  Function.Injective.countable fun _ _ => UInt32.toNat_inj.mp

instance countableUInt64 : Countable UInt64 :=
  Function.Injective.countable fun _ _ => UInt64.toNat_inj.mp

instance countableInt32 : Countable Int32 :=
  Function.Injective.countable fun _ _ => Int32.toInt_inj.mp

deriving instance Countable for OutPoint, TxIn, TxOut, Transaction

/-- There is a collision-free numbering of transactions without their witnesses. -/
theorem exists_lawfulTxid : ∃ txid, (smallCratesWith txid true).LawfulTxid := by
  obtain ⟨number, injective⟩ := exists_injective_nat Transaction
  exact ⟨fun tx => number tx.withoutWitness, fun tx tx' => injective.eq_iff⟩

variable {txid : Transaction → Txid}

/-- One input, one output to a key. -/
def smallUnsignedTx : Transaction where
  version := 1
  lockTime := 0
  input := [{ TxIn.default with previousOutput := ⟨5, 0⟩ }]
  output := [⟨100000, [2, 3]⟩]

def smallFundTx (txid : Transaction → Txid) : FundTx (smallCratesWith txid true) where
  descriptor := .wpkh ⟨true, (3 : ZMod 101)⟩
  psbt := .ofUnsigned smallUnsignedTx

/-- The PSBT with a script in its only input. -/
def smallSigned (txid : Transaction → Txid) (script : Script) :
    (smallCratesWith txid true).Psbt where
  unsignedTx := smallUnsignedTx
  inputs := [{ PsbtInput.default with finalScriptSig := some script
                                      finalScriptWitness := some [[1]] }]

theorem smallFundTx_channelId : ∃ id, (smallFundTx txid).channelId = some id := ⟨_, rfl⟩

/-- A wallet that always answers with the same transaction. -/
def smallWallet (txid : Transaction → Txid) : Wallet (smallCratesWith txid true) :=
  fun _ _ => .ok (smallFundTx txid).psbt

theorem smallFundTx_created : (smallFundTx txid).psbt.AsCreated where
  inputs := rfl
  bare := by simp [smallFundTx, Psbt.ofUnsigned, PsbtInput.default]
  fewOutputs := by simp [smallFundTx, Psbt.ofUnsigned, smallUnsignedTx]

theorem smallSigned_finalised (script : Script) :
    (smallFundTx txid).psbt.Finalised (smallSigned txid script) := ⟨rfl, rfl⟩

theorem smallWallet_creates (script : Script) (value : UInt64)
    (psbt : (smallCratesWith txid true).Psbt)
    (answered : smallWallet txid script value = .ok psbt) :
    psbt.AsCreated := by
  obtain rfl : (smallFundTx txid).psbt = psbt := Except.ok.inj answered
  exact smallFundTx_created

theorem idSurvivesSigning_native : ∃ txid, (smallCratesWith txid true).LawfulTxid ∧
    (smallFundTx txid).Survives (smallSigned txid []) := by
  obtain ⟨txid, lawful⟩ := exists_lawfulTxid
  obtain ⟨id, named⟩ : ∃ id, (smallFundTx txid).channelId = some id := smallFundTx_channelId
  have made : createFundTransaction (smallWallet txid) 100000 (smallFundTx txid).descriptor =
      .ok (smallFundTx txid) := rfl
  have survives := FundTx.idSurvivesSigning smallCrates_psbt lawful smallWallet_creates made named
    (smallSigned_finalised [])
  exact ⟨txid, lawful, survives.1.mpr (by simp [smallSigned])⟩

/-- A wrapped segwit input pushes its redeem script, and the id is another one. -/
theorem idLost_wrapped : ∃ txid, (smallCratesWith txid true).LawfulTxid ∧
    List.Forall₂ InputKind.Finalises [.wrappedSegwit]
      (smallSigned txid [0x16, 0x00, 0x14]).inputs ∧
    ¬ (smallFundTx txid).Survives (smallSigned txid [0x16, 0x00, 0x14]) := by
  obtain ⟨txid, lawful⟩ := exists_lawfulTxid
  obtain ⟨id, named⟩ : ∃ id, (smallFundTx txid).channelId = some id := smallFundTx_channelId
  refine ⟨txid, lawful, .cons ⟨_, rfl, by simp⟩ .nil, ?_⟩
  rw [FundTx.survives_iff smallCrates_psbt lawful smallFundTx_created named
    (smallSigned_finalised _)]
  simp [smallSigned]

end Small

end Lindy
