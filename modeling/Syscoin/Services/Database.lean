import Syscoin.Primitives.Serialize
import Syscoin.Services.Cert

/-!
# `Services.Database` — the service databases in bytes

The rules keep a map from guids to records and lists. Below it, a LevelDB files bytes under bytes: a key is a pair of
strings on a stream, of which the first names a space and the second a record in it. Each accessor is one of the three
calls of `CLevelDB` at its own key and format. The fee list and the index of a database stand in the same space as the
records that buyers name.
-/

namespace Syscoin

open Lib

/-- What the database files under each key. -/
abbrev CLevelDB : Type := Bytes → Option Bytes

namespace CLevelDB

def write (key value : Bytes) (db : CLevelDB) : CLevelDB := Function.update db key (some value)

def erase (key : Bytes) (db : CLevelDB) : CLevelDB := Function.update db key none

/-- The object read into, as the read leaves it, and whether it succeeded. An object that breaks off counts as none. -/
def read {α : Type} (value : Field α) (key : Bytes) (a : α) (db : CLevelDB) : α × Bool :=
  match db key with
  | none => (a, false)
  | some s => ((value a s).1, (value a s).2.isSome)

/-- A pair of a string and a string or byte vector, which look alike on a stream. -/
def pairKey (space name : Bytes) : Bytes := writeVch space ++ writeVch name

end CLevelDB

/-! ## Formats -/

/-- `COfferFee` and `CCertFee` on a stream. -/
def CFee.serialize (fee : CFee) : Bytes :=
  writeUint256 fee.hash ++ writeUint64 fee.nHeight ++ writeUint64 fee.nTime ++ writeUint64 fee.nFee

def CFee.null : CFee := ⟨0, 0, 0, 0⟩

def CFee.read : Field CFee :=
  Field.seq [
    Field.uint256 fun fee v => { fee with hash := v },
    Field.uint64 fun fee v => { fee with nHeight := v },
    Field.uint64 fun fee v => { fee with nTime := v },
    Field.uint64 fun fee v => { fee with nFee := v }]

/-- Five million bytes of fee records: a record takes 56 bytes in memory. -/
def feeChunk : Nat := 5000000 / 56

def feesField : Field (List CFee) := Field.vector CFee.read CFee.null feeChunk fun _ v => v

def vchField : Field Bytes := Field.vch fun _ v => v

/-- Five million bytes of byte vectors: an empty one takes 24 bytes in memory. -/
def vchChunk : Nat := 5000000 / 24

def indexField : Field (List Bytes) := Field.vector vchField [] vchChunk fun _ v => v

/-! ## Offers -/

namespace COfferDB

/-- The space `offera` of accepts. -/
def offera : Bytes := [111, 102, 102, 101, 114, 97]

/-- The name `offerndx` of the index. -/
def offerndx : Bytes := [111, 102, 102, 101, 114, 110, 100, 120]

def writeOfferAccept (name vchValue : Bytes) : CLevelDB → CLevelDB :=
  CLevelDB.write (CLevelDB.pairKey offera name) (writeVch vchValue)

def eraseOfferAccept (name : Bytes) : CLevelDB → CLevelDB := CLevelDB.erase (CLevelDB.pairKey offera name)

def readOfferAccept (name vchValue : Bytes) : CLevelDB → Bytes × Bool :=
  CLevelDB.read vchField (CLevelDB.pairKey offera name) vchValue

def writeOfferTxFees (vtxPos : List CFee) : CLevelDB → CLevelDB :=
  CLevelDB.write (CLevelDB.pairKey offera offertxf) (writeVector CFee.serialize vtxPos)

def readOfferTxFees (vtxPos : List CFee) : CLevelDB → List CFee × Bool :=
  CLevelDB.read feesField (CLevelDB.pairKey offera offertxf) vtxPos

def writeOfferIndex (vtxPos : List Bytes) : CLevelDB → CLevelDB :=
  CLevelDB.write (CLevelDB.pairKey offera offerndx) (writeVector writeVch vtxPos)

def readOfferIndex (vtxPos : List Bytes) : CLevelDB → List Bytes × Bool :=
  CLevelDB.read indexField (CLevelDB.pairKey offera offerndx) vtxPos

end COfferDB

/-! ## Certificates -/

namespace CCertDB

/-- The space `certissuera` of certificates. -/
def certissuera : Bytes := [99, 101, 114, 116, 105, 115, 115, 117, 101, 114, 97]

def writeCertItem (name vchValue : Bytes) : CLevelDB → CLevelDB :=
  CLevelDB.write (CLevelDB.pairKey certissuera name) (writeVch vchValue)

def eraseCertItem (name : Bytes) : CLevelDB → CLevelDB := CLevelDB.erase (CLevelDB.pairKey certissuera name)

def readCertItem (name vchValue : Bytes) : CLevelDB → Bytes × Bool :=
  CLevelDB.read vchField (CLevelDB.pairKey certissuera name) vchValue

def writeCertFees (vtxPos : List CFee) : CLevelDB → CLevelDB :=
  CLevelDB.write (CLevelDB.pairKey certissuera certissuertxf) (writeVector CFee.serialize vtxPos)

def readCertFees (vtxPos : List CFee) : CLevelDB → List CFee × Bool :=
  CLevelDB.read feesField (CLevelDB.pairKey certissuera certissuertxf) vtxPos

end CCertDB

end Syscoin
