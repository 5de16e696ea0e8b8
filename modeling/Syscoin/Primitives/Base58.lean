import Mathlib.Data.Nat.Digits.Defs
import Syscoin.Primitives.Payload

/-!
# `Primitives.Base58` — addresses as people write them

A destination is the hash of a key or of a script. `CBitcoinAddress` puts a version byte in front of it that depends on
the network, and prints both, with a checksum behind, in base 58. An address that cannot be read is looked up as the name
of an alias.

A string is a list of characters. The hash of the checksum is a parameter, and so is `GetAliasValue`, which throws
(`none`) or gives an address.
-/

namespace Syscoin

/-! ## Big numbers -/

/-- `CBigNum::setvch`: little endian, the highest bit is the sign. -/
def CBigNum.setvch (vch : Bytes) : Int :=
  match vch.getLast? with
  | none => 0
  | some top => if top < 0x80 then fromLE vch else -(fromLE (vch.dropLast ++ [top &&& 0x7f]) : Int)

/-- `CBigNum::getvch`: the bytes that are needed, and one more if the highest bit is taken. -/
def CBigNum.getvch (bn : Int) : Bytes :=
  let magnitude := (Nat.digits 256 bn.natAbs).map UInt8.ofNat
  match magnitude.getLast? with
  | none => []
  | some top =>
    if 0x80 ≤ top then magnitude ++ [if bn < 0 then 0x80 else 0]
    else if bn < 0 then magnitude.dropLast ++ [top ||| 0x80]
    else magnitude

/-! ## Base 58 -/

def pszBase58 : List Char :=
  ['1', '2', '3', '4', '5', '6', '7', '8', '9', 'A', 'B', 'C', 'D', 'E', 'F', 'G', 'H', 'J', 'K', 'L', 'M', 'N', 'P', 'Q',
    'R', 'S', 'T', 'U', 'V', 'W', 'X', 'Y', 'Z', 'a', 'b', 'c', 'd', 'e', 'f', 'g', 'h', 'i', 'j', 'k', 'm', 'n', 'o', 'p',
    'q', 'r', 's', 't', 'u', 'v', 'w', 'x', 'y', 'z']

def base58Char (c : Nat) : Char := pszBase58.getD c '1'

/-- Space, and the characters from tab to carriage return. -/
def isspace (c : Char) : Bool := c.toNat = 32 ∨ (9 ≤ c.toNat ∧ c.toNat ≤ 13)

/-- What is read of a string through `c_str`. -/
def cStr (str : List Char) : List Char := str.takeWhile fun c => c.toNat ≠ 0

/-- The loop of `EncodeBase58`, lowest digit first. -/
def encodeLoop (bn : Nat) : List Char :=
  if bn = 0 then [] else base58Char (bn % 58) :: encodeLoop (bn / 58)
termination_by bn
decreasing_by exact Nat.div_lt_self (by omega) (by decide)

/-- **`EncodeBase58`** -/
def encodeBase58 (vch : Bytes) : List Char :=
  let bn := CBigNum.setvch (vch.reverse ++ [0])
  let str := encodeLoop bn.toNat
  let str := str ++ (vch.takeWhile (· = 0)).map fun _ => base58Char 0
  str.reverse

/-- The loop of `DecodeBase58`. Only spaces may follow the digits. -/
def decodeLoop : List Char → Nat → Option Nat
  | [], bn => some bn
  | c :: p, bn =>
    match pszBase58.idxOf? c with
    | some i => decodeLoop p (bn * 58 + i)
    | none => if (c :: p).dropWhile isspace = [] then some bn else none

/-- The sign byte goes. -/
def trimSign (vch : Bytes) : Bytes :=
  if 2 ≤ vch.length ∧ vch.getD (vch.length - 1) 0 = 0 ∧ 0x80 ≤ vch.getD (vch.length - 2) 0 then vch.dropLast else vch

/-- **`DecodeBase58`** -/
def decodeBase58 (psz : List Char) : Option Bytes :=
  let psz := (cStr psz).dropWhile isspace
  (decodeLoop psz 0).map fun (bn : Nat) =>
    (psz.takeWhile (· = base58Char 0)).map (fun _ => 0) ++ (trimSign (CBigNum.getvch bn)).reverse

section Check

variable (Hash : Bytes → Uint256)

/-- The first four bytes of the hash. -/
def checksum (vch : Bytes) : Bytes := toLE 4 (Hash vch)

/-- **`EncodeBase58Check`** -/
def encodeBase58Check (vchIn : Bytes) : List Char := encodeBase58 (vchIn ++ checksum Hash vchIn)

/-- **`DecodeBase58Check`** -/
def decodeBase58Check (psz : List Char) : Option Bytes :=
  (decodeBase58 psz).bind fun vch =>
    if vch.length < 4 then none
    else if checksum Hash (vch.take (vch.length - 4)) ≠ vch.drop (vch.length - 4) then none
    else some (vch.take (vch.length - 4))

end Check

/-! ## Destinations -/

/-- A hash of 160 bits. -/
structure CKeyID where
  id : Uint160
  lt : id < 2 ^ 160
deriving DecidableEq, Repr

structure CScriptID where
  id : Uint160
  lt : id < 2 ^ 160
deriving DecidableEq, Repr

/-- `CTxDestination` -/
inductive CTxDestination where
  | none
  | keyID (id : CKeyID)
  | scriptID (id : CScriptID)
deriving DecidableEq, Repr

theorem fromLE_take_lt (vchData : Bytes) : fromLE (vchData.take 20) < 2 ^ 160 := by
  calc fromLE (vchData.take 20) < 256 ^ (vchData.take 20).length := fromLE_lt _
    _ ≤ 256 ^ 20 := Nat.pow_le_pow_right (by decide) (List.length_take_le 20 vchData)
    _ = 2 ^ 160 := by decide

/-- The twenty bytes of `vchData` as a hash. -/
def keyIDOf (vchData : Bytes) : CKeyID := ⟨fromLE (vchData.take 20), fromLE_take_lt vchData⟩

def scriptIDOf (vchData : Bytes) : CScriptID := ⟨fromLE (vchData.take 20), fromLE_take_lt vchData⟩

/-- The three networks, with the flags that stand for them. -/
inductive Network where
  | main
  | test
  | cake
deriving DecidableEq, Repr

def Network.fTestNet (net : Network) : Bool := net = .test

def Network.fCakeNet (net : Network) : Bool := net = .cake

/-! ## `CBitcoinAddress` -/

def PUBKEY_ADDRESS : UInt8 := 63
def SCRIPT_ADDRESS : UInt8 := 5
def PUBKEY_ADDRESS_TEST : UInt8 := 65
def SCRIPT_ADDRESS_TEST : UInt8 := 196
def PUBKEY_ADDRESS_CAKE : UInt8 := 66
def SCRIPT_ADDRESS_CAKE : UInt8 := 197

structure CBitcoinAddress where
  nVersion : UInt8
  vchData : Bytes
  isAlias : Bool
  aliasName : List Char
deriving DecidableEq, Repr

namespace CBitcoinAddress

/-- `CBitcoinAddress()` -/
def empty : CBitcoinAddress := ⟨0, [], false, []⟩

def setData (nVersionIn : UInt8) (data : Bytes) (addr : CBitcoinAddress) : CBitcoinAddress :=
  { addr with nVersion := nVersionIn, vchData := data }

variable (net : Network)

/-- `Set(const CKeyID &)` -/
def setKeyID (id : CKeyID) (addr : CBitcoinAddress) : CBitcoinAddress :=
  if net.fTestNet then addr.setData PUBKEY_ADDRESS_TEST (toLE 20 id.id)
  else if net.fCakeNet then addr.setData PUBKEY_ADDRESS_CAKE (toLE 20 id.id)
  else addr.setData PUBKEY_ADDRESS (toLE 20 id.id)

/-- `Set(const CScriptID &)`, which takes the versions of the keys as well. -/
def setScriptID (id : CScriptID) (addr : CBitcoinAddress) : CBitcoinAddress :=
  if net.fTestNet then addr.setData PUBKEY_ADDRESS_TEST (toLE 20 id.id)
  else if net.fCakeNet then addr.setData PUBKEY_ADDRESS_CAKE (toLE 20 id.id)
  else addr.setData PUBKEY_ADDRESS (toLE 20 id.id)

/-- `CBitcoinAddress(const CTxDestination &)` -/
def ofDestination (dest : CTxDestination) : CBitcoinAddress :=
  match dest with
  | .none => empty
  | .keyID id => empty.setKeyID net id
  | .scriptID id => empty.setScriptID net id

/-- **`IsValid`**. The case of the test network's scripts falls through to the next one. -/
def isValid (addr : CBitcoinAddress) : Bool :=
  let expect (fExpectTestNet fExpectCakeNet : Bool) : Bool :=
    fExpectTestNet == net.fTestNet && fExpectCakeNet == net.fCakeNet && addr.vchData.length == 20
  if addr.nVersion = PUBKEY_ADDRESS then expect false false
  else if addr.nVersion = SCRIPT_ADDRESS then expect false false
  else if addr.nVersion = PUBKEY_ADDRESS_TEST then expect true false
  else if addr.nVersion = SCRIPT_ADDRESS_TEST then expect false true
  else if addr.nVersion = PUBKEY_ADDRESS_CAKE then expect false true
  else if addr.nVersion = SCRIPT_ADDRESS_CAKE then expect false true
  else false

/-- **`Get`** -/
def get (addr : CBitcoinAddress) : CTxDestination :=
  if !addr.isValid net then .none
  else if addr.nVersion = PUBKEY_ADDRESS ∨ addr.nVersion = PUBKEY_ADDRESS_TEST ∨ addr.nVersion = PUBKEY_ADDRESS_CAKE then
    .keyID (keyIDOf addr.vchData)
  else if addr.nVersion = SCRIPT_ADDRESS ∨ addr.nVersion = SCRIPT_ADDRESS_TEST ∨ addr.nVersion = SCRIPT_ADDRESS_CAKE then
    .scriptID (scriptIDOf addr.vchData)
  else .none

variable (Hash : Bytes → Uint256)

/-- **`SetString`** -/
def setString (str : List Char) (addr : CBitcoinAddress) : Bool × CBitcoinAddress :=
  match decodeBase58Check Hash str with
  | some (nVersion :: vchData) => (true, addr.setData nVersion vchData)
  | _ => (false, addr.setData 0 [])

/-- **`ToString`** -/
def toString (addr : CBitcoinAddress) : List Char := encodeBase58Check Hash (addr.nVersion :: addr.vchData)

/-- `CBitcoinAddress(const std::string &)` -/
def ofString (getAliasValue : List Char → Option (List Char)) (strAddress : List Char) : CBitcoinAddress :=
  let addr := (empty.setString Hash strAddress).2
  if addr.isValid net then addr
  else
    match getAliasValue strAddress with
    | none => addr
    | some strAliasAddress =>
      { (addr.setString Hash strAliasAddress).2 with isAlias := true, aliasName := strAddress }

end CBitcoinAddress

end Syscoin
