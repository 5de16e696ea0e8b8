import Mathlib.Algebra.BigOperators.Group.List.Basic
import Syscoin.Chain.TxIndex

/-!
# `Correctness.BlockFormat` — blocks come back from the stream

Each record reads back what it wrote, whatever follows it, and its size is the number of bytes it writes, counted modulo
`2^32`. For headers this is an induction on the parent headers, which needs at each of them that the version announces
work exactly where there is some.
-/

namespace Syscoin

open Lib Lib.Reader

/-! ## Machine numbers -/

theorem reads_int32 {n : Int} (h : -2 ^ 31 ≤ n ∧ n < 2 ^ 31) : Reads (readSigned 4) (writeSigned 4 n) n := by
  have hhalf : 256 ^ 4 = 2 * 2 ^ 31 := by norm_num
  exact reads_readSigned hhalf (by push_cast; exact h.1) (by push_cast; exact h.2)

theorem reads_int64 {n : Int} (h : -2 ^ 63 ≤ n ∧ n < 2 ^ 63) : Reads (readSigned 8) (writeSigned 8 n) n := by
  have hhalf : 256 ^ 8 = 2 * 2 ^ 63 := by norm_num
  exact reads_readSigned hhalf (by push_cast; exact h.1) (by push_cast; exact h.2)

theorem reads_uint32 {n : Nat} (h : n < 2 ^ 32) : Reads (readLE 4) (toLE 4 n) n := by
  have hlt : n < 256 ^ 4 := by
    norm_num at h ⊢
    exact h
  exact reads_readLE hlt

theorem reads_uint256 {n : Uint256} (h : n < 2 ^ 256) : Reads readUint256 (writeUint256 n) n := by
  have hlt : n < 256 ^ 32 := by
    norm_num at h ⊢
    exact h
  exact reads_readLE hlt

@[simp] theorem length_writeSigned (width : Nat) (n : Int) : (writeSigned width n).length = width :=
  length_toLE _ _

@[simp] theorem length_writeUint256 (n : Uint256) : (writeUint256 n).length = 32 :=
  length_toLE _ _

@[simp] theorem length_writeVch (vch : Bytes) : (writeVch vch).length = vchSize vch := by
  rw [writeVch, List.length_append, length_writeCompactSize, vchSize]

/-! ## What a reader takes

    A vector may take nothing that is counted here. -/

/-! ## Sizes of vectors -/

variable {α : Type} {size : α → UInt32} {write : α → Bytes} {v : List α}

theorem length_writeVector :
    (writeVector write v).length = getSizeOfCompactSize v.length + (v.map fun a => (write a).length).sum := by
  rw [writeVector, List.length_append, length_writeCompactSize, List.length_flatMap]

theorem foldl_sizes (n : Nat) (h : ∀ a ∈ v, size a = UInt32.ofNat (write a).length) :
    v.foldl (fun nSize a => nSize + size a) (UInt32.ofNat n) =
      UInt32.ofNat (n + (v.map fun a => (write a).length).sum) := by
  induction v generalizing n with
  | nil => rfl
  | cons a v ih =>
    rw [List.forall_mem_cons] at h
    rw [List.foldl_cons, h.1, ← UInt32.ofNat_add, ih _ h.2, List.map_cons, List.sum_cons, Nat.add_assoc]

theorem vectorSerSize_eq (h : ∀ a ∈ v, size a = UInt32.ofNat (write a).length) :
    vectorSerSize size v = UInt32.ofNat (writeVector write v).length := by
  rw [vectorSerSize, foldl_sizes _ h, length_writeVector]

theorem vchSerSize_eq (vch : Bytes) : vchSerSize vch = UInt32.ofNat (writeVch vch).length := by
  rw [length_writeVch]
  rfl

/-! ## Transactions -/

/-- What the members can hold. Members here and below also keep their vectors within `MAX_SIZE`, beyond which no reader
    goes. -/
structure COutPoint.Fits (outpoint : COutPoint) : Prop where
  hash : outpoint.hash < 2 ^ 256
  n : outpoint.n < 2 ^ 32

structure CTxIn.Fits (txin : CTxIn) : Prop where
  prevout : txin.prevout.Fits
  scriptSig : txin.scriptSig.length ≤ Field.MAX_SIZE
  nSequence : txin.nSequence < 2 ^ 32

structure CTxOut.Fits (txout : CTxOut) : Prop where
  nValue : -2 ^ 63 ≤ txout.nValue ∧ txout.nValue < 2 ^ 63
  scriptPubKey : txout.scriptPubKey.length ≤ Field.MAX_SIZE

structure CTransaction.Fits (tx : CTransaction) : Prop where
  nVersion : -2 ^ 31 ≤ tx.nVersion ∧ tx.nVersion < 2 ^ 31
  vin : tx.vin.length ≤ Field.MAX_SIZE
  inputs : ∀ txin ∈ tx.vin, txin.Fits
  vout : tx.vout.length ≤ Field.MAX_SIZE
  outputs : ∀ txout ∈ tx.vout, txout.Fits
  nLockTime : tx.nLockTime < 2 ^ 32
  data : tx.data.length ≤ Field.MAX_SIZE

theorem COutPoint.reads {outpoint : COutPoint} (h : outpoint.Fits) :
    Reads COutPoint.unserialize outpoint.serialize outpoint :=
  (reads_uint256 h.hash).bind (reads_uint32 h.n).bind_pure

theorem CTxIn.reads {txin : CTxIn} (h : txin.Fits) : Reads CTxIn.unserialize txin.serialize txin :=
  (COutPoint.reads h.prevout).bind ((reads_readVch h.scriptSig).bind (reads_uint32 h.nSequence).bind_pure)

theorem CTxOut.reads {txout : CTxOut} (h : txout.Fits) : Reads CTxOut.unserialize txout.serialize txout :=
  (reads_int64 h.nValue).bind (reads_readVch h.scriptPubKey).bind_pure

theorem COutPoint.length_serialize (outpoint : COutPoint) : outpoint.serialize.length = 36 := by
  rw [COutPoint.serialize, List.length_append, length_toLE, length_toLE]

theorem CTxIn.length_serialize (txin : CTxIn) : txin.serialize.length = 36 + vchSize txin.scriptSig + 4 := by
  rw [CTxIn.serialize, List.length_append, List.length_append, COutPoint.length_serialize, length_writeVch, length_toLE,
    Nat.add_assoc]

theorem CTxOut.length_serialize (txout : CTxOut) : txout.serialize.length = 8 + vchSize txout.scriptPubKey := by
  rw [CTxOut.serialize, List.length_append, length_writeSigned, length_writeVch]

theorem CTxIn.nSerSize_eq (txin : CTxIn) : txin.nSerSize = UInt32.ofNat txin.serialize.length := by
  rw [CTxIn.length_serialize, UInt32.ofNat_add, UInt32.ofNat_add]
  rfl

theorem CTxOut.nSerSize_eq (txout : CTxOut) : txout.nSerSize = UInt32.ofNat txout.serialize.length := by
  rw [CTxOut.length_serialize, UInt32.ofNat_add]
  rfl

theorem serDisk_whole : SER_DISK &&& SER_GETAUXHASH = 0 := rfl

namespace CTransaction

variable {nType : Nat} {tx : CTransaction}

/-- Only the flag of the hash for the parent chain makes a difference. -/
theorem serialize_eq (htype : nType &&& SER_GETAUXHASH = 0) : tx.serialize nType = tx.serialize SER_DISK := by
  rw [serialize, serialize, if_pos htype, if_pos serDisk_whole]

theorem reads (htype : nType &&& SER_GETAUXHASH = 0) (h : tx.Fits) :
    Reads (unserialize nType) (tx.serialize nType) tx := by
  have hvin : Reads (readVector CTxIn.unserialize) (writeVector CTxIn.serialize tx.vin) tx.vin :=
    reads_readVector h.vin fun txin hmem => CTxIn.reads (h.inputs txin hmem)
  have hvout : Reads (readVector CTxOut.unserialize) (writeVector CTxOut.serialize tx.vout) tx.vout :=
    reads_readVector h.vout fun txout hmem => CTxOut.reads (h.outputs txout hmem)
  simp only [unserialize, serialize, if_pos htype]
  exact (reads_int32 h.nVersion).bind (hvin.bind (hvout.bind ((reads_uint32 h.nLockTime).bind
    (reads_readVch h.data).bind_pure)))

theorem length_serialize (htype : nType &&& SER_GETAUXHASH = 0) :
    (tx.serialize nType).length = tx.getSerializeSize := by
  simp only [serialize, if_pos htype, List.length_append, length_writeSigned, length_writeVector, length_toLE,
    length_writeVch, CTxIn.length_serialize, CTxOut.length_serialize, getSerializeSize]
  omega

theorem nSerSize_eq (htype : nType &&& SER_GETAUXHASH = 0) :
    tx.nSerSize nType = UInt32.ofNat (tx.serialize nType).length := by
  have hvin : vectorSerSize CTxIn.nSerSize tx.vin = UInt32.ofNat (writeVector CTxIn.serialize tx.vin).length :=
    vectorSerSize_eq fun txin _ => txin.nSerSize_eq
  have hvout : vectorSerSize CTxOut.nSerSize tx.vout = UInt32.ofNat (writeVector CTxOut.serialize tx.vout).length :=
    vectorSerSize_eq fun txout _ => txout.nSerSize_eq
  simp only [nSerSize, serialize, if_pos htype, List.length_append, length_writeSigned, length_toLE, UInt32.ofNat_add]
  rw [hvin, hvout, vchSerSize_eq]
  show 4 + _ + _ + 4 + _ = (4 : UInt32) + _
  ac_rfl

end CTransaction

/-! ## Headers -/

namespace Wire

structure HeaderFields.Fits (fields : HeaderFields) : Prop where
  nVersion : -2 ^ 31 ≤ fields.nVersion ∧ fields.nVersion < 2 ^ 31
  hashPrevBlock : fields.hashPrevBlock < 2 ^ 256
  hashMerkleRoot : fields.hashMerkleRoot < 2 ^ 256
  nTime : fields.nTime < 2 ^ 32
  nBits : fields.nBits < 2 ^ 32
  nNonce : fields.nNonce < 2 ^ 32

structure CMerkleTx.Fits (merkleTx : CMerkleTx) : Prop where
  tx : merkleTx.tx.Fits
  hashBlock : merkleTx.hashBlock < 2 ^ 256
  vMerkleBranch : merkleTx.vMerkleBranch.length ≤ Field.MAX_SIZE
  hashes : ∀ hash ∈ merkleTx.vMerkleBranch, hash < 2 ^ 256
  nIndex : -2 ^ 31 ≤ merkleTx.nIndex ∧ merkleTx.nIndex < 2 ^ 31

structure AuxPowFields.Fits (auxpow : AuxPowFields) : Prop where
  merkleTx : auxpow.toCMerkleTx.Fits
  vChainMerkleBranch : auxpow.vChainMerkleBranch.length ≤ Field.MAX_SIZE
  hashes : ∀ hash ∈ auxpow.vChainMerkleBranch, hash < 2 ^ 256
  nChainIndex : auxpow.nChainIndex < 2 ^ 32

def CBlockHeader.Fits : CBlockHeader → Prop
  | .plain fields => fields.Fits
  | .merged fields auxpow parentBlockHeader => fields.Fits ∧ auxpow.Fits ∧ parentBlockHeader.Fits

/-- The version announces work iff the pointer is not null, and so for every parent. -/
def CBlockHeader.Marked : CBlockHeader → Prop
  | .plain fields => hasAuxPow fields.nVersion = false
  | .merged fields _ parentBlockHeader => hasAuxPow fields.nVersion = true ∧ parentBlockHeader.Marked

structure CBlock.Fits (block : CBlock) : Prop where
  header : block.header.Fits
  vtx : block.vtx.length ≤ Field.MAX_SIZE
  transactions : ∀ tx ∈ block.vtx, tx.Fits

variable {nType : Nat} {nVersion : Int}

theorem HeaderFields.reads {fields : HeaderFields} (h : fields.Fits) :
    Reads HeaderFields.unserialize fields.serialize fields :=
  (reads_int32 h.nVersion).bind ((reads_uint256 h.hashPrevBlock).bind ((reads_uint256 h.hashMerkleRoot).bind
    ((reads_uint32 h.nTime).bind ((reads_uint32 h.nBits).bind (reads_uint32 h.nNonce).bind_pure))))

theorem HeaderFields.length_serialize (fields : HeaderFields) : fields.serialize.length = 80 := by
  simp only [HeaderFields.serialize, List.length_append, length_writeSigned, length_writeUint256, length_toLE]

theorem reads_branch {branch : List Uint256} (hlen : branch.length ≤ Field.MAX_SIZE)
    (h : ∀ hash ∈ branch, hash < 2 ^ 256) : Reads (readVector readUint256) (writeVector writeUint256 branch) branch :=
  reads_readVector hlen fun hash hmem => reads_uint256 (h hash hmem)

theorem branchSerSize_eq (branch : List Uint256) :
    vectorSerSize (fun _ => 32) branch = UInt32.ofNat (writeVector writeUint256 branch).length :=
  vectorSerSize_eq fun hash _ => by
    rw [length_writeUint256]
    rfl

namespace AuxPowFields

variable {auxpow : AuxPowFields}

theorem reads (htype : nType &&& SER_GETAUXHASH = 0) (h : auxpow.Fits) :
    Reads (unserialize nType) (auxpow.serialize nType) auxpow := by
  have hmerkleTx : Reads (CMerkleTx.unserialize nType) (auxpow.toCMerkleTx.serialize nType) auxpow.toCMerkleTx :=
    (CTransaction.reads htype h.merkleTx.tx).bind ((reads_uint256 h.merkleTx.hashBlock).bind
      ((reads_branch h.merkleTx.vMerkleBranch h.merkleTx.hashes).bind (reads_int32 h.merkleTx.nIndex).bind_pure))
  exact hmerkleTx.bind ((reads_branch h.vChainMerkleBranch h.hashes).bind (reads_uint32 h.nChainIndex).bind_pure)

theorem serialize_eq (htype : nType &&& SER_GETAUXHASH = 0) : auxpow.serialize nType = auxpow.serialize SER_DISK := by
  rw [serialize, CMerkleTx.serialize, CTransaction.serialize_eq htype]
  rfl

theorem nSerSize_eq (htype : nType &&& SER_GETAUXHASH = 0) :
    auxpow.nSerSize nType = UInt32.ofNat (auxpow.serialize nType).length := by
  simp only [nSerSize, CMerkleTx.nSerSize, serialize, CMerkleTx.serialize, List.length_append, length_writeUint256,
    length_writeSigned, length_toLE, UInt32.ofNat_add]
  rw [CTransaction.nSerSize_eq htype, branchSerSize_eq, branchSerSize_eq]
  show _ + 32 + _ + 4 + _ + 4 = _ + (32 + (_ + (4 : UInt32))) + (_ + 4)
  ac_rfl

end AuxPowFields

namespace CBlockHeader

/-- What is written of a header that is marked as it should be. -/
def bytes : CBlockHeader → Bytes
  | .plain fields => fields.serialize
  | .merged fields auxpow parentBlockHeader =>
    fields.serialize ++ (auxpow.serialize SER_DISK ++ parentBlockHeader.bytes)

variable {header : CBlockHeader}

theorem bytes_eq (header : CBlockHeader) : ∃ s, header.bytes = header.fields.serialize ++ s := by
  cases header with
  | plain fields => exact ⟨[], (List.append_nil _).symm⟩
  | merged fields auxpow parentBlockHeader => exact ⟨_, rfl⟩

theorem length_bytes_pos (header : CBlockHeader) : 0 < header.bytes.length := by
  obtain ⟨s, hs⟩ := header.bytes_eq
  rw [hs, List.length_append, HeaderFields.length_serialize]
  omega

theorem serialize_eq (htype : nType &&& SER_GETAUXHASH = 0) (hmarked : header.Marked) :
    header.serialize nType nVersion = some header.bytes := by
  induction header generalizing nVersion with
  | plain fields =>
    have hno : hasAuxPow fields.nVersion = false := hmarked
    rw [serialize, hno]
    rfl
  | merged fields auxpow parentBlockHeader ih =>
    rw [serialize, hmarked.1, ih hmarked.2, AuxPowFields.serialize_eq htype]
    rfl

theorem nSerSize_eq (htype : nType &&& SER_GETAUXHASH = 0) (hmarked : header.Marked) :
    header.nSerSize nType nVersion = some (UInt32.ofNat header.bytes.length) := by
  induction header generalizing nVersion with
  | plain fields =>
    have hno : hasAuxPow fields.nVersion = false := hmarked
    rw [nSerSize, hno, bytes, HeaderFields.length_serialize]
    rfl
  | merged fields auxpow parentBlockHeader ih =>
    rw [nSerSize, hmarked.1, ih hmarked.2, AuxPowFields.nSerSize_eq htype, AuxPowFields.serialize_eq htype, bytes,
      List.length_append, List.length_append, HeaderFields.length_serialize, UInt32.ofNat_add, UInt32.ofNat_add]
    rfl

/-- The parents lie behind their children, so that the bytes of each of them are fewer. -/
theorem reads_nested (htype : nType &&& SER_GETAUXHASH = 0) (hfits : header.Fits) (hmarked : header.Marked)
    {fuel : Nat} (hfuel : header.bytes.length ≤ fuel) :
    Reads (unserializeNested nType fuel nVersion) header.bytes header := by
  induction header generalizing fuel nVersion with
  | plain fields =>
    have hno : hasAuxPow fields.nVersion = false := hmarked
    have hpos := (CBlockHeader.plain fields).length_bytes_pos
    obtain ⟨fuel, rfl⟩ : ∃ n, fuel = n + 1 := ⟨fuel - 1, by omega⟩
    have hread : Reads (unserializeNested nType (fuel + 1) nVersion) (fields.serialize ++ []) (.plain fields) := by
      refine (HeaderFields.reads hfits).bind ?_
      show Reads (if hasAuxPow fields.nVersion = true then _ else _) _ _
      rw [hno]
      exact reads_pure _
    rwa [List.append_nil] at hread
  | merged fields auxpow parentBlockHeader ih =>
    obtain ⟨hfields, haux, hparent⟩ := hfits
    rw [bytes, List.length_append, List.length_append, HeaderFields.length_serialize] at hfuel
    obtain ⟨fuel, rfl⟩ : ∃ n, fuel = n + 1 := ⟨fuel - 1, by omega⟩
    have hnested : Reads (unserializeNested nType fuel auxpow.tx.nVersion) parentBlockHeader.bytes parentBlockHeader :=
      ih hparent hmarked.2 (by omega)
    refine (HeaderFields.reads hfields).bind ?_
    show Reads (if hasAuxPow fields.nVersion = true then _ else _) _ _
    rw [if_pos hmarked.1, ← AuxPowFields.serialize_eq htype]
    exact (AuxPowFields.reads htype haux).bind hnested.bind_pure

theorem reads (htype : nType &&& SER_GETAUXHASH = 0) (hfits : header.Fits) (hmarked : header.Marked) :
    Reads (unserialize nType nVersion) header.bytes header := by
  intro rest
  exact reads_nested htype hfits hmarked (by rw [List.length_append]; omega) rest

end CBlockHeader

/-! ## Blocks -/

namespace CBlock

variable {block : CBlock}

def bytes (block : CBlock) : Bytes :=
  block.header.bytes ++ writeVector (CTransaction.serialize SER_DISK) block.vtx

theorem writeTransactions_eq (htype : nType &&& SER_GETAUXHASH = 0) (vtx : List CTransaction) :
    writeVector (CTransaction.serialize nType) vtx = writeVector (CTransaction.serialize SER_DISK) vtx := by
  have hwrite : CTransaction.serialize nType = CTransaction.serialize SER_DISK :=
    funext fun _ => CTransaction.serialize_eq htype
  rw [hwrite]

theorem serialize_eq (htype : nType &&& SER_GETAUXHASH = 0) (hmarked : block.header.Marked) :
    block.serialize nType nVersion = some block.bytes := by
  rw [serialize, CBlockHeader.serialize_eq htype hmarked, writeTransactions_eq htype]
  rfl

theorem nSerSize_eq (htype : nType &&& SER_GETAUXHASH = 0) (hmarked : block.header.Marked) :
    block.nSerSize nType nVersion = some (UInt32.ofNat block.bytes.length) := by
  have hvtx : vectorSerSize (CTransaction.nSerSize nType) block.vtx =
      UInt32.ofNat (writeVector (CTransaction.serialize nType) block.vtx).length :=
    vectorSerSize_eq fun tx _ => CTransaction.nSerSize_eq htype
  rw [nSerSize, CBlockHeader.nSerSize_eq htype hmarked, hvtx, writeTransactions_eq htype, bytes, List.length_append,
    UInt32.ofNat_add]
  rfl

theorem reads (htype : nType &&& SER_GETAUXHASH = 0) (hfits : block.Fits) (hmarked : block.header.Marked) :
    Reads (unserialize nType nVersion) block.bytes block := by
  have hvtx : Reads (readVector (CTransaction.unserialize nType))
      (writeVector (CTransaction.serialize nType) block.vtx) block.vtx :=
    reads_readVector hfits.vtx fun tx hmem => CTransaction.reads htype (hfits.transactions tx hmem)
  rw [writeTransactions_eq htype] at hvtx
  exact (CBlockHeader.reads htype hfits.header hmarked).bind hvtx.bind_pure

end CBlock

end Wire

/-! ## The index of transactions -/

variable {Hash : Bytes → Uint256} {pos : CDiskTxPos}

theorem CDiskTxPos.reads (pos : CDiskTxPos) : Reads CDiskTxPos.unserialize pos.serialize pos := by
  have hread : Reads CDiskTxPos.unserialize pos.serialize
      ⟨⟨pos.nFile, pos.nPos⟩, UInt32.ofNat pos.nTxOffset.toNat⟩ :=
    (reads_readVarInt pos.nFile).bind ((reads_readVarInt pos.nPos).bind
      (reads_readVarInt pos.nTxOffset.toNat).bind_pure)
  rw [UInt32.ofNat_toNat] at hread
  exact hread

/-- The loop adds up the sizes of the transactions before each one. -/
theorem collectPositions_getElem? {vtx : List CTransaction} {i : Nat} {tx : CTransaction} (h : vtx[i]? = some tx) :
    (collectPositions Hash pos vtx)[i]? = some (tx.getHash Hash, { pos with
      nTxOffset := pos.nTxOffset + UInt32.ofNat ((vtx.take i).map (·.getSerializeSize)).sum }) := by
  induction vtx generalizing pos i with
  | nil => cases h
  | cons first vtx ih =>
    cases i with
    | zero =>
      obtain rfl : first = tx := Option.some.inj h
      show some (first.getHash Hash, pos) = _
      rw [List.take_zero, List.map_nil, List.sum_nil]
      show _ = some (_, { pos with nTxOffset := pos.nTxOffset + 0 })
      rw [UInt32.add_zero]
    | succ i =>
      have hsize : first.nSerSize SER_DISK = UInt32.ofNat first.getSerializeSize := by
        rw [CTransaction.nSerSize_eq serDisk_whole, CTransaction.length_serialize serDisk_whole]
      rw [collectPositions, List.getElem?_cons_succ, ih h, hsize, List.take_succ_cons, List.map_cons, List.sum_cons,
        UInt32.ofNat_add, UInt32.add_assoc]

theorem map_fst_collectPositions (vtx : List CTransaction) :
    (collectPositions Hash pos vtx).map Prod.fst = vtx.map (CTransaction.getHash · Hash) := by
  induction vtx generalizing pos with
  | nil => rfl
  | cons tx vtx ih => rw [collectPositions, List.map_cons, ih, List.map_cons]

namespace TxIndex

variable {db : TxIndex} {vect : List (Uint256 × CDiskTxPos)} {txid : Uint256}

theorem writeTxIndex_of_not_mem (h : txid ∉ vect.map Prod.fst) : db.writeTxIndex vect txid = db txid := by
  induction vect generalizing db with
  | nil => rfl
  | cons it vect ih =>
    rw [List.map_cons, List.mem_cons, not_or] at h
    show writeTxIndex (Function.update db it.1 (some it.2.serialize)) vect txid = _
    rw [ih h.2, Function.update_of_ne h.1]

/-- A record stays when no later one has its key. -/
theorem readTxIndex_writeTxIndex (hnodup : (vect.map Prod.fst).Nodup) (h : (txid, pos) ∈ vect) :
    (db.writeTxIndex vect).readTxIndex txid = some pos := by
  have hdb : db.writeTxIndex vect txid = some pos.serialize := by
    induction vect generalizing db with
    | nil => cases h
    | cons it vect ih =>
      rw [List.map_cons, List.nodup_cons] at hnodup
      show writeTxIndex (Function.update db it.1 (some it.2.serialize)) vect txid = _
      cases h with
      | head => rw [writeTxIndex_of_not_mem hnodup.1, Function.update_self]
      | tail _ h => exact ih hnodup.2 h
  have hread := CDiskTxPos.reads pos []
  rw [List.append_nil] at hread
  rw [readTxIndex, hdb, Option.bind_some, hread]
  rfl

end TxIndex

namespace Wire

variable {block : CBlock}

/-- How far behind the header transaction `i` starts. -/
def CBlock.txOffset (block : CBlock) (i : Nat) : Nat :=
  getSizeOfCompactSize block.vtx.length + ((block.vtx.take i).map (·.getSerializeSize)).sum

theorem CBlock.drop_txOffset {i : Nat} {tx : CTransaction} (h : block.vtx[i]? = some tx) (rest : Bytes) :
    ∃ more, (writeVector (CTransaction.serialize SER_DISK) block.vtx ++ rest).drop (block.txOffset i) =
      tx.serialize SER_DISK ++ more := by
  have hsum : ((block.vtx.take i).map (·.getSerializeSize)).sum =
      ((block.vtx.take i).flatMap (CTransaction.serialize SER_DISK)).length := by
    rw [List.length_flatMap]
    congr 1
    exact List.map_congr_left fun tx _ => (CTransaction.length_serialize serDisk_whole).symm
  obtain ⟨hlt, rfl⟩ := List.getElem?_eq_some_iff.mp h
  have hsplit : block.vtx = block.vtx.take i ++ block.vtx[i] :: block.vtx.drop (i + 1) := by
    rw [← List.drop_eq_getElem_cons hlt, List.take_append_drop]
  have hbytes : block.vtx.flatMap (CTransaction.serialize SER_DISK) =
      (block.vtx.take i).flatMap (CTransaction.serialize SER_DISK) ++
        (block.vtx[i].serialize SER_DISK ++ (block.vtx.drop (i + 1)).flatMap (CTransaction.serialize SER_DISK)) := by
    conv => lhs; rw [hsplit]
    rw [List.flatMap_append, List.flatMap_cons]
  refine ⟨(block.vtx.drop (i + 1)).flatMap (CTransaction.serialize SER_DISK) ++ rest, ?_⟩
  rw [CBlock.txOffset, writeVector, hbytes, hsum, List.append_assoc, ← length_writeCompactSize,
    List.drop_length_add_append, List.append_assoc, List.drop_left, List.append_assoc]

/-- Where the bytes of a block lie at its position, the place worked out for a transaction leads to it. -/
theorem readTransactionAt_txOffset (hfits : block.Fits) (hmarked : block.header.Marked) {blockPos : CDiskBlockPos}
    {blockFile : Nat → Option Bytes} {file rest : Bytes} (hfile : blockFile blockPos.nFile = some file)
    (hdisk : file.drop blockPos.nPos = block.bytes ++ rest) {i : Nat} {tx : CTransaction}
    (h : block.vtx[i]? = some tx) (hoffset : block.txOffset i < 2 ^ 32) :
    readTransactionAt Hash blockFile (tx.getHash Hash) ⟨blockPos, UInt32.ofNat (block.txOffset i)⟩ =
      some (tx, block.header.getHash Hash) := by
  have hheader : CBlockHeader.unserialize SER_DISK CLIENT_VERSION (file.drop blockPos.nPos) =
      some (block.header, writeVector (CTransaction.serialize SER_DISK) block.vtx ++ rest) := by
    rw [hdisk, CBlock.bytes, List.append_assoc]
    exact CBlockHeader.reads serDisk_whole hfits.header hmarked _
  have hskip : (UInt32.ofNat (block.txOffset i)).toNat = block.txOffset i := UInt32.toNat_ofNat_of_lt' hoffset
  obtain ⟨more, hmore⟩ := CBlock.drop_txOffset h rest
  have htx : CTransaction.unserialize SER_DISK (tx.serialize SER_DISK ++ more) = some (tx, more) :=
    CTransaction.reads serDisk_whole (hfits.transactions tx (List.mem_of_getElem? h)) more
  rw [readTransactionAt, hfile, Option.bind_eq_bind, Option.bind_some, hheader, Option.bind_eq_bind, Option.bind_some]
  show (CTransaction.unserialize SER_DISK (List.drop (UInt32.ofNat (block.txOffset i)).toNat _)).bind _ = _
  rw [hskip, hmore, htx, Option.bind_some]
  exact if_pos rfl

/-- Blocks come back from the stream. Sizes and the offsets of the transactions are 32 bits wide: a size is right modulo
    `2^32`, and an offset leads to its transaction where that starts less than `2^32` bytes behind the header. -/
theorem block_roundTrips (Hash : Bytes → Uint256) {block : CBlock} (hfits : block.Fits)
    (hmarked : block.header.Marked) :
    ∃ s : Bytes,
      (∀ nType nVersion, nType &&& SER_GETAUXHASH = 0 →
        block.serialize nType nVersion = some s ∧
        (block.nSerSize nType nVersion).map UInt32.toNat = some (s.length % 2 ^ 32) ∧
        ∀ rest, CBlock.unserialize nType nVersion (s ++ rest) = some (block, rest)) ∧
      (∀ header : CBlockHeader, header.fields = block.header.fields → header.getHash Hash = Hash (s.take 80)) ∧
      ∀ (blockPos : CDiskBlockPos) (blockFile : Nat → Option Bytes) (file rest : Bytes),
        blockFile blockPos.nFile = some file → file.drop blockPos.nPos = s ++ rest →
        ∀ (i : Nat) (tx : CTransaction), block.vtx[i]? = some tx → block.txOffset i < 2 ^ 32 →
          ∃ postx, (vPos Hash blockPos block.vtx)[i]? = some (tx.getHash Hash, postx) ∧
            (∀ more, CDiskTxPos.unserialize (postx.serialize ++ more) = some (postx, more)) ∧
            readTransactionAt Hash blockFile (tx.getHash Hash) postx = some (tx, block.header.getHash Hash) := by
  refine ⟨block.bytes, ?_, ?_, ?_⟩
  · intro nType nVersion htype
    refine ⟨CBlock.serialize_eq htype hmarked, ?_, CBlock.reads htype hfits hmarked⟩
    rw [CBlock.nSerSize_eq htype hmarked]
    rfl
  · intro header hfields
    obtain ⟨s, hs⟩ := block.header.bytes_eq
    have htake : block.bytes.take 80 = block.header.fields.serialize := by
      rw [CBlock.bytes, hs, List.append_assoc, ← HeaderFields.length_serialize block.header.fields, List.take_left]
    rw [htake, CBlockHeader.getHash, hfields]
  · intro blockPos blockFile file rest hfile hdisk i tx h hoffset
    refine ⟨⟨blockPos, UInt32.ofNat (block.txOffset i)⟩, ?_, CDiskTxPos.reads _,
      readTransactionAt_txOffset hfits hmarked hfile hdisk h hoffset⟩
    rw [vPos, collectPositions_getElem? h, CBlock.txOffset, UInt32.ofNat_add]

/-- The whole way: what the index was given for a block whose transactions have different hashes leads to each of them. -/
theorem getTransaction_vPos (hfits : block.Fits) (hmarked : block.header.Marked) {blockPos : CDiskBlockPos}
    {blockFile : Nat → Option Bytes} {file rest : Bytes} (hfile : blockFile blockPos.nFile = some file)
    (hdisk : file.drop blockPos.nPos = block.bytes ++ rest) (db : TxIndex)
    (hnodup : (block.vtx.map (CTransaction.getHash · Hash)).Nodup) {i : Nat} {tx : CTransaction}
    (h : block.vtx[i]? = some tx) (hoffset : block.txOffset i < 2 ^ 32) :
    getTransaction Hash blockFile (db.writeTxIndex (vPos Hash blockPos block.vtx)) (tx.getHash Hash) =
      some (tx, block.header.getHash Hash) := by
  have hpos : (vPos Hash blockPos block.vtx)[i]? =
      some (tx.getHash Hash, ⟨blockPos, UInt32.ofNat (block.txOffset i)⟩) := by
    rw [vPos, collectPositions_getElem? h, CBlock.txOffset, UInt32.ofNat_add]
  have hkeys : ((vPos Hash blockPos block.vtx).map Prod.fst).Nodup := by
    rwa [vPos, map_fst_collectPositions]
  have hread : (db.writeTxIndex (vPos Hash blockPos block.vtx)).readTxIndex (tx.getHash Hash) = some _ :=
    TxIndex.readTxIndex_writeTxIndex hkeys (List.mem_of_getElem? hpos)
  rw [getTransaction, hread, Option.bind_some]
  exact readTransactionAt_txOffset hfits hmarked hfile hdisk h hoffset

namespace Example

def coinbase : CTransaction := ⟨1, [⟨⟨0, 2 ^ 32 - 1⟩, [1, 7], 2 ^ 32 - 1⟩], [⟨5000000000, [0x51]⟩], 0, [1, 2, 3]⟩

def registration : CTransaction := ⟨SYSCOIN_TX_VERSION, [⟨⟨77, 1⟩, [], 0⟩], [⟨-1, []⟩], 9, List.replicate 300 0x41⟩

/-- The work of a parent chain that was mined for another parent in turn. -/
def merged : CBlock where
  header :=
    .merged ⟨0x10102, 5, 6, 7, 8, 9⟩ ⟨⟨coinbase, 11, [12, 13], 0⟩, [14], 3⟩
      (.merged ⟨0x102, 15, 16, 17, 18, 19⟩ ⟨⟨coinbase, 21, [], -1⟩, [], 0⟩ (.plain ⟨2, 25, 26, 27, 28, 29⟩))
  vtx := [coinbase, registration]

theorem one_le_maxSize : 1 ≤ Field.MAX_SIZE := by decide

/-- One input and one output. -/
theorem fits_single {nVersion : Int} {txin : CTxIn} {txout : CTxOut} {nLockTime : Nat} {data : Bytes}
    (hversion : -2 ^ 31 ≤ nVersion ∧ nVersion < 2 ^ 31) (hin : txin.Fits) (hout : txout.Fits)
    (hlock : nLockTime < 2 ^ 32) (hdata : data.length ≤ Field.MAX_SIZE) :
    (⟨nVersion, [txin], [txout], nLockTime, data⟩ : CTransaction).Fits where
  nVersion := hversion
  vin := one_le_maxSize
  inputs := by
    intro txin' hmem
    obtain rfl := List.mem_singleton.mp hmem
    exact hin
  vout := one_le_maxSize
  outputs := by
    intro txout' hmem
    obtain rfl := List.mem_singleton.mp hmem
    exact hout
  nLockTime := hlock
  data := hdata

theorem coinbase_fits : coinbase.Fits :=
  fits_single (by decide) ⟨⟨by decide, by decide⟩, by decide, by decide⟩ ⟨by decide, by decide⟩ (by decide) (by decide)

theorem registration_fits : registration.Fits := by
  have hdata : (List.replicate 300 0x41 : Bytes).length ≤ Field.MAX_SIZE := by
    rw [List.length_replicate]
    decide
  exact fits_single (by decide) ⟨⟨by decide, by decide⟩, by decide, by decide⟩ ⟨by decide, by decide⟩ (by decide) hdata

theorem merged_fits : merged.Fits where
  header :=
    ⟨⟨by decide, by decide, by decide, by decide, by decide, by decide⟩,
      ⟨⟨coinbase_fits, by decide, by decide, by decide, by decide⟩, by decide, by decide, by decide⟩,
      ⟨by decide, by decide, by decide, by decide, by decide, by decide⟩,
      ⟨⟨coinbase_fits, by decide, by decide, by decide, by decide⟩, by decide, by decide, by decide⟩,
      ⟨by decide, by decide, by decide, by decide, by decide, by decide⟩⟩
  vtx := by decide
  transactions := by
    intro tx hmem
    have hmem : tx ∈ [coinbase, registration] := hmem
    rcases List.mem_pair.mp hmem with rfl | rfl
    · exact coinbase_fits
    · exact registration_fits

theorem block_roundTrips_merged :
    ∃ s : Bytes,
      (∀ nType nVersion, nType &&& SER_GETAUXHASH = 0 →
        merged.serialize nType nVersion = some s ∧
        (merged.nSerSize nType nVersion).map UInt32.toNat = some (s.length % 2 ^ 32) ∧
        ∀ rest, CBlock.unserialize nType nVersion (s ++ rest) = some (merged, rest)) ∧
      (∀ header : CBlockHeader, header.fields = merged.header.fields → header.getHash fromLE = fromLE (s.take 80)) ∧
      ∀ (blockPos : CDiskBlockPos) (blockFile : Nat → Option Bytes) (file rest : Bytes),
        blockFile blockPos.nFile = some file → file.drop blockPos.nPos = s ++ rest →
        ∀ (i : Nat) (tx : CTransaction), merged.vtx[i]? = some tx → merged.txOffset i < 2 ^ 32 →
          ∃ postx, (vPos fromLE blockPos merged.vtx)[i]? = some (tx.getHash fromLE, postx) ∧
            (∀ more, CDiskTxPos.unserialize (postx.serialize ++ more) = some (postx, more)) ∧
            readTransactionAt fromLE blockFile (tx.getHash fromLE) postx = some (tx, merged.header.getHash fromLE) :=
  block_roundTrips fromLE merged_fits ⟨rfl, rfl, rfl⟩

/-- As many data as a vector may have, or any other number `n` of bytes. -/
def heavy (n : Nat) : CTransaction := ⟨1, [], [], 0, List.replicate n 0⟩

def overfull (n : Nat) : CBlock := ⟨.plain ⟨2, 0, 0, 0, 0, 0⟩, List.replicate 128 (heavy n)⟩

theorem heavy_fits {n : Nat} (h : n ≤ Field.MAX_SIZE) : (heavy n).Fits where
  nVersion := by
    show (-2 ^ 31 : Int) ≤ 1 ∧ (1 : Int) < 2 ^ 31
    decide
  vin := Nat.zero_le _
  inputs := fun _ hmem => absurd hmem List.not_mem_nil
  vout := Nat.zero_le _
  outputs := fun _ hmem => absurd hmem List.not_mem_nil
  nLockTime := by
    show 0 < 2 ^ 32
    decide
  data := by
    rw [heavy, List.length_replicate]
    exact h

theorem overfull_fits {n : Nat} (h : n ≤ Field.MAX_SIZE) : (overfull n).Fits where
  header := ⟨by decide, by decide, by decide, by decide, by decide, by decide⟩
  vtx := by
    show (List.replicate 128 (heavy n)).length ≤ 0x02000000
    rw [List.length_replicate]
    decide
  transactions := by
    intro tx hmem
    rw [List.eq_of_mem_replicate hmem]
    exact heavy_fits h

theorem overfull_marked (n : Nat) : (overfull n).header.Marked := by
  show hasAuxPow 2 = false
  rfl

theorem length_overfull {n : Nat} (hlow : 0xffff < n) (hhigh : n ≤ 0xffffffff) :
    (overfull n).bytes.length = 128 * n + 2001 := by
  have hwide : getSizeOfCompactSize n = 5 := by
    rw [getSizeOfCompactSize, if_neg (by omega), if_neg (by omega), if_pos hhigh]
  have hcount : getSizeOfCompactSize 128 = 1 := rfl
  have hheavy : ((heavy n).serialize SER_DISK).length = n + 15 := by
    rw [CTransaction.length_serialize serDisk_whole]
    show 4 + 1 + 0 + 1 + 0 + 4 + vchSize (List.replicate n 0) = _
    rw [vchSize, List.length_replicate, hwide]
    omega
  rw [CBlock.bytes, List.length_append, length_writeVector]
  show 80 + (getSizeOfCompactSize 128 + ((List.replicate 128 (heavy n)).map _).sum) = _
  rw [List.map_replicate, hheavy, hcount, List.sum_replicate, nsmul_eq_mul]
  push_cast
  omega

/-- Every vector is within the limit, and the block has more bytes than an `unsigned int` counts. -/
theorem nSerSize_wraps : ¬ ∀ block : CBlock, block.Fits → block.header.Marked → ∃ s : Bytes,
    block.serialize SER_NETWORK CLIENT_VERSION = some s ∧
      (block.nSerSize SER_NETWORK CLIENT_VERSION).map UInt32.toNat = some s.length := by
  intro h
  obtain ⟨n, hn⟩ : ∃ n, n = Field.MAX_SIZE := ⟨_, rfl⟩
  have hlimit : n = 0x02000000 := hn
  obtain ⟨s, hs, hsize⟩ := h (overfull n) (overfull_fits (Nat.le_of_eq hn)) (overfull_marked n)
  have hlength := length_overfull (n := n) (by omega) (by omega)
  rw [CBlock.serialize_eq rfl (overfull_marked n), Option.some.injEq] at hs
  rw [CBlock.nSerSize_eq rfl (overfull_marked n), ← hs, Option.map_some, Option.some.injEq,
    UInt32.toNat_ofNat'] at hsize
  omega

end Example

end Wire

end Syscoin
