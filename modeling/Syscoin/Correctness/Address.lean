import Mathlib.Data.Nat.Digits.Lemmas
import Syscoin.Lib.Radix
import Syscoin.Primitives.Base58

/-!
# `Correctness.Address` — what is read back of a printed address

Base 58 and the checksum lose nothing, whatever the hash is. What an address is read back as is decided by the version
byte alone, and scripts are printed with the version of a key.
-/

namespace Syscoin

open Lib

/-! ## Big numbers -/

theorem fromLE_eq_ofDigits (vch : Bytes) : fromLE vch = Nat.ofDigits 256 (vch.map UInt8.toNat) := by
  induction vch with
  | nil => rfl
  | cons b vch ih =>
    rw [fromLE, List.map_cons, Nat.ofDigits_cons, ih]

/-- A zero on top makes the number positive. -/
theorem setvch_zero_top (vch : Bytes) : CBigNum.setvch (vch ++ [0]) = (Nat.ofDigits 256 (vch.map UInt8.toNat) : Nat) := by
  have hlast : (vch ++ [0]).getLast? = some (0 : UInt8) := by simp
  have htop : (0 : UInt8) < 0x80 := by decide
  unfold CBigNum.setvch
  rw [hlast]
  simp only [htop, if_true]
  rw [fromLE_eq_ofDigits, List.map_append, Nat.ofDigits_append]
  simp

theorem getD_length_sub_one_append (vch : Bytes) (b : UInt8) : (vch ++ [b]).getD ((vch ++ [b]).length - 1) 0 = b := by
  simp

/-- The highest byte of a number is not zero. -/
theorem top_ne_zero {bn : Nat} {vch : Bytes} {top : UInt8} (h : (Nat.digits 256 bn).map UInt8.ofNat = vch ++ [top]) :
    top ≠ 0 := by
  have hne : Nat.digits 256 bn ≠ [] := by
    intro hnil
    rw [hnil] at h
    simp at h
  have hlast := congrArg List.getLast? h
  rw [List.getLast?_map, List.getLast?_eq_some_getLast hne, Option.map_some, List.getLast?_concat] at hlast
  have htop := Option.some.inj hlast
  have hlt : (Nat.digits 256 bn).getLast hne < 256 := Nat.digits_lt_base (by decide) (List.getLast_mem hne)
  have hpos : (Nat.digits 256 bn).getLast hne ≠ 0 := Nat.getLast_digit_ne_zero 256 (by rintro rfl; simp at hne)
  intro hzero
  rw [hzero] at htop
  have hnat := congrArg UInt8.toNat htop
  rw [UInt8.toNat_ofNat_of_lt' hlt] at hnat
  exact hpos hnat

/-- Without its sign byte a number that is not negative has the bytes it needs. -/
theorem trimSign_getvch (bn : Nat) : trimSign (CBigNum.getvch bn) = (Nat.digits 256 bn).map UInt8.ofNat := by
  have hneg : ¬ (bn : Int) < 0 := by omega
  unfold CBigNum.getvch
  simp only [Int.natAbs_natCast, hneg, if_false]
  cases hlast : ((Nat.digits 256 bn).map UInt8.ofNat).getLast? with
  | none =>
    rw [List.getLast?_eq_none_iff.1 hlast]
    rfl
  | some top =>
    obtain ⟨vch, hvch⟩ := List.getLast?_eq_some_iff.1 hlast
    have htop := top_ne_zero hvch
    rw [hvch]
    simp only []
    split
    · rename_i hhigh
      -- the sign byte is there
      unfold trimSign
      rw [if_pos, List.dropLast_concat]
      refine ⟨by simp, getD_length_sub_one_append (vch ++ [top]) 0, ?_⟩
      have hget : (vch ++ [top] ++ [0]).getD ((vch ++ [top] ++ [0]).length - 2) 0 = top := by simp
      rw [hget]
      exact hhigh
    · unfold trimSign
      rw [if_neg]
      rintro ⟨-, hzero, -⟩
      rw [getD_length_sub_one_append] at hzero
      exact htop hzero

/-! ## Base 58 -/

theorem encodeLoop_eq (bn : Nat) : encodeLoop bn = (Nat.digits 58 bn).map base58Char := by
  induction bn using Nat.strong_induction_on with
  | _ bn ih =>
    unfold encodeLoop
    split
    · rename_i hzero
      rw [hzero]
      simp
    · rename_i hpos
      have hdigits : Nat.digits 58 bn = bn % 58 :: Nat.digits 58 (bn / 58) :=
        Nat.digits_of_two_le_of_pos (by decide) (by omega)
      rw [ih (bn / 58) (Nat.div_lt_self (by omega) (by decide)), hdigits, List.map_cons]

/-- What `EncodeBase58` writes. -/
theorem encodeBase58_eq (vch : Bytes) : encodeBase58 vch = (rebase 256 58 (vch.map UInt8.toNat)).map base58Char := by
  have hzeros : leadingZeros (vch.map UInt8.toNat) = (vch.takeWhile (· = 0)).length := by
    rw [leadingZeros, List.takeWhile_map, List.length_map]
    congr 2
    funext b
    simp [← UInt8.toNat_inj]
  unfold encodeBase58
  simp only []
  rw [setvch_zero_top, Int.toNat_natCast, encodeLoop_eq, rebase, hzeros, List.map_append, List.reverse_append,
    List.map_reverse, List.map_const', List.reverse_replicate, List.map_replicate, ← List.map_reverse]

theorem idxOf_base58Char {i : Nat} (hi : i < 58) : pszBase58.idxOf? (base58Char i) = some i := by
  have hall : ∀ i : Fin 58, pszBase58.idxOf? (base58Char i) = some (i : Nat) := by decide +kernel
  exact hall ⟨i, hi⟩

/-- No digit is a space or the end of the string, and only the first one stands for zero. -/
theorem base58Char_spec {i : Nat} (hi : i < 58) :
    isspace (base58Char i) = false ∧ (base58Char i).toNat ≠ 0 ∧ (base58Char i = base58Char 0 ↔ i = 0) := by
  have hall : ∀ i : Fin 58, isspace (base58Char i) = false ∧ (base58Char i).toNat ≠ 0 ∧
      (base58Char i = base58Char 0 ↔ (i : Nat) = 0) := by
    decide +kernel
  exact hall ⟨i, hi⟩

theorem decodeLoop_map {ds : List Nat} (hds : ∀ d ∈ ds, d < 58) (bn : Nat) :
    decodeLoop (ds.map base58Char) bn = some (bn * 58 ^ ds.length + Nat.ofDigits 58 ds.reverse : Nat) := by
  induction ds generalizing bn with
  | nil => simp [decodeLoop]
  | cons d ds ih =>
    rw [List.map_cons, decodeLoop, idxOf_base58Char (hds d List.mem_cons_self)]
    show decodeLoop (ds.map base58Char) (bn * 58 + d) = _
    rw [ih (fun d' hd' => hds d' (List.mem_cons_of_mem _ hd')), List.reverse_cons, Nat.ofDigits_append, List.length_reverse,
      Nat.ofDigits_singleton, List.length_cons, pow_succ]
    congr 1
    rw [Nat.add_mul]
    have h1 : bn * 58 * 58 ^ ds.length = bn * (58 ^ ds.length * 58) := by
      rw [Nat.mul_assoc, Nat.mul_comm 58]
    rw [h1, Nat.mul_comm d]
    omega

theorem length_takeWhile_zero {ds : List Nat} (hds : ∀ d ∈ ds, d < 58) :
    ((ds.map base58Char).takeWhile (· = base58Char 0)).length = leadingZeros ds := by
  induction ds with
  | nil => rfl
  | cons d ds ih =>
    have hzero := (base58Char_spec (hds d List.mem_cons_self)).2.2
    unfold leadingZeros at ih ⊢
    rw [List.map_cons, List.takeWhile_cons, List.takeWhile_cons]
    by_cases hd : d = 0
    · simp only [hd, decide_true, if_true, List.length_cons]
      rw [ih fun d' hd' => hds d' (List.mem_cons_of_mem _ hd')]
    · have hne : base58Char d ≠ base58Char 0 := fun heq => hd (hzero.1 heq)
      simp [hne, hd]

/-- What `DecodeBase58` reads. -/
theorem decodeBase58_map {ds : List Nat} (hds : ∀ d ∈ ds, d < 58) :
    decodeBase58 (ds.map base58Char) = some ((rebase 58 256 ds).map UInt8.ofNat) := by
  have hstr : cStr (ds.map base58Char) = ds.map base58Char := by
    rw [cStr, List.takeWhile_eq_self_iff]
    intro c hc
    obtain ⟨d, hd, rfl⟩ := List.mem_map.1 hc
    simpa using (base58Char_spec (hds d hd)).2.1
  have hspace : (ds.map base58Char).dropWhile isspace = ds.map base58Char := by
    cases ds with
    | nil => rfl
    | cons d ds =>
      rw [List.map_cons, List.dropWhile_cons, (base58Char_spec (hds d List.mem_cons_self)).1]
      rfl
  have hzeros := length_takeWhile_zero hds
  unfold decodeBase58
  simp only []
  rw [hstr, hspace, decodeLoop_map hds, Option.map_some, Nat.zero_mul, Nat.zero_add, trimSign_getvch, rebase,
    List.map_append, List.map_const', hzeros, List.map_replicate, List.map_reverse]
  rfl

/-- **There and back in base 58.** -/
theorem decodeBase58_encodeBase58 (vch : Bytes) : decodeBase58 (encodeBase58 vch) = some vch := by
  have hbyte : ∀ d ∈ vch.map UInt8.toNat, d < 256 := by
    intro d hd
    obtain ⟨b, -, rfl⟩ := List.mem_map.1 hd
    exact b.toNat_lt
  rw [encodeBase58_eq, decodeBase58_map (fun d hd => rebase_lt (by decide) hd), rebase_rebase (by decide) hbyte,
    List.map_map]
  congr 1
  calc vch.map (UInt8.ofNat ∘ UInt8.toNat) = vch.map id := List.map_congr_left fun b _ => UInt8.ofNat_toNat
    _ = vch := List.map_id vch

/-- A character of the alphabet is the one of its index. -/
theorem exists_base58Char {c : Char} (hc : c ∈ pszBase58) : ∃ d < 58, base58Char d = c := by
  obtain ⟨d, hd, rfl⟩ := List.getElem_of_mem hc
  refine ⟨d, hd, ?_⟩
  rw [base58Char, List.getD_eq_getElem?_getD, List.getElem?_eq_getElem hd, Option.getD_some]

/-- A string over the alphabet is a string of digits. -/
theorem exists_digits {psz : List Char} (hpsz : ∀ c ∈ psz, c ∈ pszBase58) :
    ∃ ds : List Nat, (∀ d ∈ ds, d < 58) ∧ ds.map base58Char = psz := by
  induction psz with
  | nil => exact ⟨[], fun d hd => absurd hd List.not_mem_nil, rfl⟩
  | cons c psz ih =>
    obtain ⟨hc, hrest⟩ := List.forall_mem_cons.mp hpsz
    obtain ⟨d, hd, rfl⟩ := exists_base58Char hc
    obtain ⟨ds, hds, rfl⟩ := ih hrest
    exact ⟨d :: ds, List.forall_mem_cons.mpr ⟨hd, hds⟩, rfl⟩

/-- **Base 58 in both directions.** Every byte vector comes back from its string, and every string over the alphabet from
    the bytes that it stands for. -/
theorem base58_round_trips :
    (∀ vch : Bytes, decodeBase58 (encodeBase58 vch) = some vch) ∧
    ∀ psz : List Char, (∀ c ∈ psz, c ∈ pszBase58) → ∃ vch, decodeBase58 psz = some vch ∧ encodeBase58 vch = psz := by
  refine ⟨decodeBase58_encodeBase58, fun psz hpsz => ?_⟩
  obtain ⟨ds, hds, rfl⟩ := exists_digits hpsz
  refine ⟨_, decodeBase58_map hds, ?_⟩
  have hbytes : ((rebase 58 256 ds).map UInt8.ofNat).map UInt8.toNat = rebase 58 256 ds := by
    rw [List.map_map]
    calc (rebase 58 256 ds).map (UInt8.toNat ∘ UInt8.ofNat) = (rebase 58 256 ds).map id :=
          List.map_congr_left fun b hb => UInt8.toNat_ofNat_of_lt' (rebase_lt (by decide) hb)
      _ = rebase 58 256 ds := List.map_id _
  rw [encodeBase58_eq, hbytes, rebase_rebase (by decide) hds]

/-- A string with zeros in front. -/
theorem base58_sample : ∃ vch, decodeBase58 ['1', '1', '2', 'z'] = some vch ∧ encodeBase58 vch = ['1', '1', '2', 'z'] :=
  base58_round_trips.2 ['1', '1', '2', 'z'] (by simp [pszBase58])

/-! ## The checksum -/

variable (Hash : Bytes → Uint256)

/-- **There and back with a checksum.** -/
theorem decodeBase58Check_encodeBase58Check (vchIn : Bytes) :
    decodeBase58Check Hash (encodeBase58Check Hash vchIn) = some vchIn := by
  have hlen : (vchIn ++ checksum Hash vchIn).length - 4 = vchIn.length := by
    rw [List.length_append, checksum, length_toLE]
    omega
  unfold decodeBase58Check encodeBase58Check
  rw [decodeBase58_encodeBase58, Option.bind_some, hlen, List.take_left, List.drop_left, if_neg, if_neg (by simp)]
  rw [List.length_append, checksum, length_toLE]
  omega

namespace CBitcoinAddress

/-! ## Addresses -/

theorem setString_toString (addr start : CBitcoinAddress) :
    start.setString Hash (addr.toString Hash) = (true, start.setData addr.nVersion addr.vchData) := by
  unfold setString CBitcoinAddress.toString
  rw [decodeBase58Check_encodeBase58Check]

/-- Two addresses print alike iff version and data are the same. -/
theorem toString_inj {addr addr' : CBitcoinAddress} :
    addr.toString Hash = addr'.toString Hash ↔ addr.nVersion = addr'.nVersion ∧ addr.vchData = addr'.vchData := by
  constructor
  · intro h
    have hparsed := setString_toString Hash addr empty
    rw [h, setString_toString Hash addr' empty] at hparsed
    have hdata := (Prod.mk.inj hparsed).2
    exact ⟨(congrArg CBitcoinAddress.nVersion hdata).symm, (congrArg CBitcoinAddress.vchData hdata).symm⟩
  · rintro ⟨hversion, hdata⟩
    unfold CBitcoinAddress.toString
    rw [hversion, hdata]

variable (net : Network) (getAliasValue : List Char → Option (List Char))

/-- A valid address is read back as it was printed. -/
theorem ofString_toString {addr : CBitcoinAddress} (hvalid : addr.isValid net = true) :
    ofString net Hash getAliasValue (addr.toString Hash) = { addr with isAlias := false, aliasName := [] } := by
  have hvalid' : (empty.setData addr.nVersion addr.vchData).isValid net = true := hvalid
  unfold ofString
  rw [setString_toString]
  simp only [hvalid', if_true]
  rfl

/-- The version byte that a network has for keys, and uses for scripts too. -/
def versionOf : Network → UInt8
  | .main => PUBKEY_ADDRESS
  | .test => PUBKEY_ADDRESS_TEST
  | .cake => PUBKEY_ADDRESS_CAKE

theorem ofDestination_keyID (id : CKeyID) :
    ofDestination net (.keyID id) = ⟨versionOf net, toLE 20 id.id, false, []⟩ := by
  cases net with
  | main => rfl
  | test => rfl
  | cake => rfl

theorem ofDestination_scriptID (id : CScriptID) :
    ofDestination net (.scriptID id) = ⟨versionOf net, toLE 20 id.id, false, []⟩ := by
  cases net with
  | main => rfl
  | test => rfl
  | cake => rfl

theorem isValid_versionOf {data : Bytes} (hdata : data.length = 20) :
    (⟨versionOf net, data, false, []⟩ : CBitcoinAddress).isValid net = true := by
  unfold isValid
  rw [hdata]
  cases net with
  | main => rfl
  | test => rfl
  | cake => rfl

theorem fromLE_take_toLE {id : Nat} (hid : id < 2 ^ 160) : fromLE ((toLE 20 id).take 20) = id := by
  have hmod : id % 256 ^ 20 = id := Nat.mod_eq_of_lt (hid.trans_le (by decide))
  rw [List.take_of_length_le (length_toLE 20 id).le, fromLE_toLE, hmod]

theorem keyIDOf_toLE (id : CKeyID) : keyIDOf (toLE 20 id.id) = id := by
  unfold keyIDOf
  simp only [fromLE_take_toLE id.lt]

theorem scriptIDOf_toLE (id : CScriptID) : scriptIDOf (toLE 20 id.id) = id := by
  unfold scriptIDOf
  simp only [fromLE_take_toLE id.lt]

/-- With that version twenty bytes are read as a key. -/
theorem get_versionOf {id : Nat} (hid : id < 2 ^ 160) :
    (⟨versionOf net, toLE 20 id, false, []⟩ : CBitcoinAddress).get net = .keyID ⟨id, hid⟩ := by
  have hkey : keyIDOf (toLE 20 id) = ⟨id, hid⟩ := keyIDOf_toLE ⟨id, hid⟩
  have hversion : versionOf net = PUBKEY_ADDRESS ∨ versionOf net = PUBKEY_ADDRESS_TEST ∨
      versionOf net = PUBKEY_ADDRESS_CAKE := by
    cases net with
    | main => exact .inl rfl
    | test => exact .inr (.inl rfl)
    | cake => exact .inr (.inr rfl)
  unfold get
  rw [isValid_versionOf net (length_toLE 20 id), if_neg (by simp), if_pos hversion, hkey]

/-- What the address of a destination should do: be valid, give the destination, and give it again when it is printed and
    read. -/
def RoundTrips (dest : CTxDestination) : Prop :=
  (ofDestination net dest).isValid net = true ∧ (ofDestination net dest).get net = dest ∧
    (ofString net Hash getAliasValue ((ofDestination net dest).toString Hash)).get net = dest

theorem roundTrips_keyID (id : CKeyID) : RoundTrips Hash net getAliasValue (.keyID id) := by
  have hvalid := isValid_versionOf net (length_toLE 20 id.id)
  have hget := get_versionOf net id.lt
  unfold RoundTrips
  rw [ofDestination_keyID]
  refine ⟨hvalid, hget, ?_⟩
  rw [ofString_toString Hash net getAliasValue hvalid]
  exact hget

theorem not_roundTrips_scriptID (id : CScriptID) : ¬ RoundTrips Hash net getAliasValue (.scriptID id) := by
  rintro ⟨-, hget, -⟩
  rw [ofDestination_scriptID, get_versionOf net id.lt] at hget
  exact absurd hget (by simp)

/-- A version byte of zero is no address. -/
theorem not_roundTrips_none : ¬ RoundTrips Hash net getAliasValue .none := by
  rintro ⟨hvalid, -, -⟩
  cases net with
  | main => exact absurd hvalid (by decide)
  | test => exact absurd hvalid (by decide)
  | cake => exact absurd hvalid (by decide)

/-- **Which addresses round-trip.** Those of keys do, on every network and with every hash, and those of scripts never do;
    a key and a script print differently iff their hashes differ. -/
theorem address_round_trips_iff :
    (∀ dest, RoundTrips Hash net getAliasValue dest ↔ ∃ id, dest = .keyID id) ∧
      ∀ (key : CKeyID) (script : CScriptID),
        (ofDestination net (.keyID key)).toString Hash ≠ (ofDestination net (.scriptID script)).toString Hash ↔
          key.id ≠ script.id := by
  constructor
  · intro dest
    cases dest with
    | none => simp [not_roundTrips_none]
    | keyID id => simp [roundTrips_keyID]
    | scriptID id => simp [not_roundTrips_scriptID]
  · intro key script
    apply not_congr
    rw [toString_inj, ofDestination_keyID, ofDestination_scriptID]
    constructor
    · rintro ⟨-, hdata⟩
      exact toLE_inj (key.lt.trans_le (by decide)) (script.lt.trans_le (by decide)) hdata
    · intro hid
      rw [hid]
      exact ⟨rfl, rfl⟩

/-- The script with the hash zero, on the main network: its address is the one of the key with the hash zero, and is read
    back as that key. -/
theorem script_reads_back_as_key :
    ¬ RoundTrips (fun _ => 0) .main (fun _ => none) (.scriptID ⟨0, by decide⟩) ∧
      (ofDestination .main (.scriptID ⟨0, by decide⟩)).get .main = .keyID ⟨0, by decide⟩ ∧
      (ofDestination .main (.scriptID ⟨0, by decide⟩)).toString (fun _ => 0) =
        (ofDestination .main (.keyID ⟨0, by decide⟩)).toString (fun _ => 0) := by
  refine ⟨not_roundTrips_scriptID _ _ _ _, by decide, ?_⟩
  rw [toString_inj, ofDestination_keyID, ofDestination_scriptID]
  exact ⟨rfl, rfl⟩

end CBitcoinAddress

end Syscoin
