import Mathlib.Data.List.AList
import RestDiameterBridge.LoadBalancerStrategy

/-!
# RestDiameterBridge.Stack.ListenAddress

Addresses of the form `protocol://host1,host2:port?key=value&key=value`
(`ListenAddress` in `src/stack.rs`), as lists of characters.
-/

namespace RestDiameterBridge

/-- The digits of a number below `2 ^ bits`, after those read into `n`. -/
def parseDigits (bits : Nat) : List Char → Nat → Except String Nat
  | [], n => .ok n
  | c :: cs, n =>
      let n' := 10 * n + (c.toNat - '0'.toNat)
      if !c.isDigit then .error "invalid digit found in string"
      else if 2 ^ bits ≤ n' then .error "number too large to fit in target type"
      else parseDigits bits cs n'

/-- `parse` of an unsigned number: decimal digits, perhaps behind a plus sign. -/
def parseUnsigned (bits : Nat) : List Char → Except String Nat
  | [] => .error "cannot parse integer from empty string"
  | ['+'] | ['-'] => .error "invalid digit found in string"
  | '+' :: cs => parseDigits bits cs 0
  | cs => parseDigits bits cs 0

/-- What stands before and behind the first occurrence of the separator. -/
def splitOnce (separator : List Char) : List Char → Option (List Char × List Char)
  | [] => if separator = [] then some ([], []) else none
  | c :: cs =>
      if separator.isPrefixOf (c :: cs) then some ([], (c :: cs).drop separator.length)
      else (splitOnce separator cs).map fun (before, after) => (c :: before, after)

/-- What stands before and behind the last occurrence of the character. -/
def rsplitOnce (c : Char) (s : List Char) : Option (List Char × List Char) :=
  match s.reverse.dropWhile (· ≠ c) with
  | [] => none
  | _ :: before => some (before.reverse, (s.reverse.takeWhile (· ≠ c)).reverse)

/-- The parameters of an address. -/
structure ListenParameters where
  parameters : AList fun _ : List Char => List Char

namespace ListenParameters

/-- Parameters that are not of the form `key=value` are left out. -/
def fromStr (paramStr : List Char) : ListenParameters :=
  { parameters := (paramStr.splitOn '&').foldl (fun parameters param =>
      match param.splitOn '=' with
      | [key, value] => parameters.insert key value
      | _ => parameters) ∅ }

/-- The value of a parameter as an unsigned number. -/
def getUnsigned (bits : Nat) (p : ListenParameters) (key : String) : Option Nat :=
  (p.parameters.lookup key.toList).bind fun value => (parseUnsigned bits value).toOption

end ListenParameters

/-- An address. -/
structure ListenAddress where
  protocol : List Char
  hosts : List (List Char)
  port : Nat
  parameters : Option ListenParameters

namespace ListenAddress

/-- Parse an address. Behind a second question mark nothing is read. -/
def fromStr (address : List Char) : Except String ListenAddress :=
  let invalid : Except String ListenAddress :=
    .error s!"Invalid listen address format: {String.ofList address}"
  let parts := address.splitOn '?'
  let mainPart := parts.headD []
  let parameters := parts[1]?.map ListenParameters.fromStr
  match splitOnce "://".toList mainPart with
  | none => invalid
  | some (protocol, rest) =>
      if (splitOnce "://".toList rest).isSome then invalid
      else
        match rsplitOnce ':' rest with
        | none => invalid
        | some (hostsPart, portPart) =>
            let hosts := (hostsPart.splitOn ',').map trim
            match parseUnsigned 16 portPart with
            | .error e => .error s!"Invalid port number in listen address: {e}"
            | .ok port => .ok { protocol, hosts, port, parameters }

/-- A parameter as an unsigned number, `0` if there is none. -/
def getParameter (bits : Nat) (a : ListenAddress) (key : String) : Nat :=
  (a.parameters.bind fun p => p.getUnsigned bits key).getD 0

/-- `host:port`. -/
def hostPort (a : ListenAddress) (host : List Char) : String :=
  s!"{String.ofList host}:{a.port}"

example : ((fromStr "tcp://127.0.0.1:3868?tls=true".toList).toOption.map
    fun a => (a.protocol, a.hosts, a.port)) =
    some ("tcp".toList, ["127.0.0.1".toList], 3868) := by decide

end ListenAddress

end RestDiameterBridge
