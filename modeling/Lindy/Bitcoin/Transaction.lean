import Lindy.Machine.Table
import Mathlib.Algebra.GroupWithZero.Nat

/-! # Transactions and partially signed transactions

The data of the `bitcoin` crate, with the fields the channel code reads or writes. What the
crate computes from them (transaction ids, signature hashes, the final transaction) is a
parameter of the development, see `Lindy.Crates`; the two functions on PSBTs below only
serve to state what is relied on there.
-/

namespace Lindy.Bitcoin

open Machine

abbrev Bytes := List UInt8

abbrev Script := Bytes

/-- A transaction hash. -/
abbrev Txid := Nat

structure OutPoint where
  txid : Txid
  vout : UInt32
  deriving DecidableEq

structure TxIn where
  previousOutput : OutPoint
  scriptSig : Script
  sequence : UInt32
  witness : List Bytes
  deriving DecidableEq

/-- `TxIn::default()`: the null outpoint, the final sequence number, nothing else. -/
def TxIn.default : TxIn where
  previousOutput := ⟨0, 0xFFFFFFFF⟩
  scriptSig := []
  sequence := 0xFFFFFFFF
  witness := []

structure TxOut where
  value : UInt64
  scriptPubkey : Script
  deriving DecidableEq

structure Transaction where
  version : Int32
  lockTime : UInt32
  input : List TxIn
  output : List TxOut
  deriving DecidableEq

/-- What the outputs pay out together, without wrapping. -/
def Transaction.outputSum (tx : Transaction) : Nat :=
  (tx.output.map fun output => output.value.toNat).sum

/-- The part of a transaction its id depends on. -/
def Transaction.withoutWitness (tx : Transaction) : Transaction :=
  { tx with input := tx.input.map fun input => { input with witness := [] } }

inductive SigHashType where
  | all | none | single | allPlusAnyoneCanPay | nonePlusAnyoneCanPay | singlePlusAnyoneCanPay
  deriving DecidableEq

/-- `sighash as u8`. -/
def SigHashType.toU8 : SigHashType → UInt8
  | .all => 0x01
  | .none => 0x02
  | .single => 0x03
  | .allPlusAnyoneCanPay => 0x81
  | .nonePlusAnyoneCanPay => 0x82
  | .singlePlusAnyoneCanPay => 0x83

/-- `psbt::Input`. -/
structure PsbtInput (Key : Type) where
  witnessUtxo : Option TxOut
  witnessScript : Option Script
  partialSigs : Table Key Bytes
  finalScriptSig : Option Script
  finalScriptWitness : Option (List Bytes)

def PsbtInput.default {Key : Type} : PsbtInput Key where
  witnessUtxo := none
  witnessScript := none
  partialSigs := .empty
  finalScriptSig := none
  finalScriptWitness := none

/-- `PartiallySignedTransaction`; `unsignedTx` stands in its `global` part. -/
structure Psbt (Key : Type) where
  unsignedTx : Transaction
  inputs : List (PsbtInput Key)

namespace Psbt

variable {Key : Type}

/-- The PSBT that knows nothing but the transaction. -/
def ofUnsigned (tx : Transaction) : Psbt Key where
  unsignedTx := tx
  inputs := tx.input.map fun _ => .default

/-- An input as it stands in the final transaction. -/
def finalInput (input : TxIn) (psbtInput : PsbtInput Key) : TxIn :=
  { input with scriptSig := psbtInput.finalScriptSig.getD []
               witness := psbtInput.finalScriptWitness.getD [] }

/-- The final transaction: every input takes the script and the witness it was given, and the
inputs without one of their own in the PSBT stay as they are. -/
def extracted (psbt : Psbt Key) : Transaction :=
  { psbt.unsignedTx with
    input := List.zipWith finalInput psbt.unsignedTx.input psbt.inputs ++
      psbt.unsignedTx.input.drop psbt.inputs.length }

@[simp] theorem extracted_output (psbt : Psbt Key) :
    psbt.extracted.output = psbt.unsignedTx.output := rfl

/-- With an input of its own for each input of the transaction nothing is left over. -/
theorem extracted_full {psbt : Psbt Key}
    (inputs : psbt.inputs.length = psbt.unsignedTx.input.length) :
    psbt.extracted = { psbt.unsignedTx with
      input := List.zipWith finalInput psbt.unsignedTx.input psbt.inputs } := by
  simp only [extracted, inputs, List.drop_length, List.append_nil]

/-- `psbt.inputs[0]` changed in place; `none` when there is no input to index. -/
def updateInput (psbt : Psbt Key) (update : PsbtInput Key → PsbtInput Key) :
    Option (Psbt Key) :=
  match psbt.inputs with
  | input :: rest => some { psbt with inputs := update input :: rest }
  | [] => none

end Psbt

end Lindy.Bitcoin
