import Syscoin.Chain.BlockTree

/-!
# `Chain.Work` — compact targets, the work a block has to show, and the checkpoints

`GetNextWorkRequired` sets the target of a block from the blocks below it: `KimotoGravityWell` averages the targets of
a window of them and stretches the average by the time that the window took. `ComputeMinWork` is what `ProcessBlock` asks
of a block whose parent it may not know: the target of the last checkpoint, four times as easy for every four hours
since.

How far the window reaches is decided by a comparison of floating-point numbers, the event horizon. The model takes the
outcomes of these comparisons as given.
-/

namespace Syscoin

open Lib

/-! ## Compact numbers -/

/-- `~uint256(0) >> 20` -/
def bnProofOfWorkLimit : Int := 2 ^ 236 - 1

/-- `~uint256(0) >> 11` -/
def bnProofOfWorkLimitCake : Int := 2 ^ 245 - 1

/-- `BN_num_bytes`: the bytes of the magnitude. -/
def numBytes (n : Nat) : Nat := if n = 0 then 0 else (Nat.log2 n + 1 + 7) / 8

/-- **`GetCompact`.** A mantissa that would set the sign bit is cut by a byte. The three fields do not overlap. -/
def getCompact (bn : Int) : Nat :=
  let n := bn.natAbs
  let nSize := numBytes n
  let nCompact := if nSize ≤ 3 then n * 2 ^ (8 * (3 - nSize)) else n / 2 ^ (8 * (nSize - 3))
  let nSign := if bn < 0 then 2 ^ 23 else 0
  if nCompact / 2 ^ 23 % 2 = 1 then nCompact / 2 ^ 8 + nSign + (nSize + 1) % 2 ^ 8 * 2 ^ 24
  else nCompact + nSign + nSize % 2 ^ 8 * 2 ^ 24

/-! ## `ComputeMinWork` -/

def nTargetTimespan : Int := 1 * 60 * 60

def nTargetSpacing : Int := 1 * 60

/-- The loop: four times as easy for every four target timespans. -/
def easeWork (bnLimit bnResult nTime : Int) : Int :=
  if 0 < nTime ∧ bnResult < bnLimit then easeWork bnLimit (bnResult * 4) (nTime - nTargetTimespan * 4) else bnResult
termination_by nTime.toNat
decreasing_by
  unfold nTargetTimespan
  omega

/-- **`ComputeMinWork`.** -/
def computeMinWork (env : Env) (nBase : Nat) (nTime : Int) : Nat :=
  if env.fTestNet = true ∧ nTargetSpacing * 2 < nTime then getCompact bnProofOfWorkLimit
  else if env.fCakeNet = true ∧ nTargetSpacing * 2 < nTime then getCompact bnProofOfWorkLimitCake
  else
    let bnLimit := if env.fCakeNet = true then bnProofOfWorkLimitCake else bnProofOfWorkLimit
    let bnResult := easeWork bnLimit (setCompact nBase) nTime
    getCompact (if bnLimit < bnResult then bnLimit else bnResult)

/-! ## `KimotoGravityWell` -/

/-- The outcomes of the floating-point tests: whether a window of so many blocks, which took so many seconds and should
    have taken so many, ends at the event horizon. -/
abbrev EventHorizon := Nat → Int → Int → Bool

/-- What the loop keeps of the blocks it has read. -/
structure GravityWell where
  pastBlocksMass : Nat
  pastDifficultyAverage : Int
  pastRateActualSeconds : Int
  pastRateTargetSeconds : Int
deriving DecidableEq, Repr

namespace GravityWell

def empty : GravityWell := ⟨0, 0, 0, 0⟩

/-- One more block is read. -/
def read (targetBlocksSpacingSeconds : Nat) (blockLastSolved blockReading : CBlock) (well : GravityWell) : GravityWell :=
  let i := well.pastBlocksMass + 1
  let bnTarget := setCompact blockReading.nBits
  { pastBlocksMass := i
    pastDifficultyAverage :=
      if i = 1 then bnTarget else (bnTarget - well.pastDifficultyAverage).tdiv i + well.pastDifficultyAverage
    pastRateActualSeconds := max 0 ((blockLastSolved.nTime : Int) - blockReading.nTime)
    pastRateTargetSeconds := targetBlocksSpacingSeconds * i }

/-- The average, stretched by the time that the window took. -/
def stretched (well : GravityWell) : Int :=
  if well.pastRateActualSeconds ≠ 0 ∧ well.pastRateTargetSeconds ≠ 0 then
    (well.pastDifficultyAverage * well.pastRateActualSeconds).tdiv well.pastRateTargetSeconds
  else well.pastDifficultyAverage

end GravityWell

/-- The parameters of the well. -/
structure GravityArgs where
  targetBlocksSpacingSeconds : Nat
  pastBlocksMin : Nat
  pastBlocksMax : Nat

/-- The loop. It does not read the genesis block, so that the block it reads always has a parent. -/
def readPast (horizon : EventHorizon) (args : GravityArgs) (blockLastSolved : CBlock) :
    CBlock → List CBlock → GravityWell → GravityWell
  | _, [], well => well
  | blockReading, parent :: ancestors, well =>
    if 0 < args.pastBlocksMax ∧ args.pastBlocksMax < well.pastBlocksMass + 1 then well
    else
      let well := well.read args.targetBlocksSpacingSeconds blockLastSolved blockReading
      if args.pastBlocksMin ≤ well.pastBlocksMass ∧
          horizon well.pastBlocksMass well.pastRateActualSeconds well.pastRateTargetSeconds = true then well
      else readPast horizon args blockLastSolved parent ancestors well

/-- **`KimotoGravityWell`** on top of a block. -/
def kimotoGravityWell (env : Env) (horizon : EventHorizon) (pindexLast : CBlockIndex) (args : GravityArgs) : Nat :=
  let bnPOWLimit := if env.fCakeNet = true then bnProofOfWorkLimitCake else bnProofOfWorkLimit
  if pindexLast.nHeight = 0 ∨ pindexLast.nHeight < args.pastBlocksMin then getCompact bnPOWLimit
  else
    let bnNew := (readPast horizon args pindexLast.block pindexLast.block pindexLast.ancestors .empty).stretched
    getCompact (if bnPOWLimit < bnNew then bnPOWLimit else bnNew)

/-- **`GetNextWorkRequired`.** -/
def getNextWorkRequired (env : Env) (horizon : EventHorizon) (pindexLast : CBlockIndex) : Nat :=
  kimotoGravityWell env horizon pindexLast ⟨60, 7, 98⟩

/-! ## Checkpoints -/

/-- The checkpoints of the main network, lowest first. -/
def mapCheckpoints : List (Nat × Uint256) :=
  [(0, 0xc84c8d0f52a7418b28a24e7b5354d6febed47c8cc33b3fa20fdbe4b3a1fcd9c4),
   (666, 0x3347d1782965ae18ab2cbfeff089ece5b7f9167ef6a843b959e8ee1e5c0849c1),
   (1333, 0xae8f479d8251f1099272e7ce17688fb84d2f0842655efb53ace678a79b6f5f1a),
   (1669, 0xa5bc32e784d38e95cc23984d2225b6fd14a830065029a6bb53e1366486cfb553),
   (1759, 0x67dbfe2a58176a5e7c640b8ce047776d828c4c3a52dc88653227e56c29cb9409),
   (2021, 0xcb0a506b70a38ef7f301f17a4b14133c50bf9391d8bfe2d6108c177d9436e09e),
   (2375, 0x1819af6faaa15ca12cf51ab67e75507f8d5c41fc8215d458afe6ad62bff90276),
   (2947, 0x586ca99b24ca99b1f3b8d48cb9d29c176065d92d13d84f8420577c7e60256e10),
   (3643, 0xd39eb7844ea66caa2f5a5c78cca57623abe6ec4b0102697acabf614a329c417d),
   (4719, 0x4cb63627475f1512cb5de607c9efbab40445c61a64fe13998e95700e334ecb16),
   (6205, 0x4895b445deb4ecd28d6d62f46e282dc03187a64efcd66f7106cb995df2638fbe),
   (8494, 0xd669bab6f606b6e2ef0b4711b18336c2f79ca2b926e867f72040300f09975722),
   (10360, 0xdd8d9937d8bb5784f161407442b84055280c7b843942d35d912db4a7562875f1),
   (12815, 0x5434de9b6916bf5f93f112777bd72b0a3040e705febfd5d00a492468aea29315),
   (14333, 0x1a6052a87543cbdc0f676d00bf7c4ebca757f67c05b6fdc76d41a4d256363bcb),
   (16749, 0x8a3b162afac24e3f68dd7e795f9160b8c3a99d41600ace69d2ce797baada1c2a),
   (19410, 0x5c78ff28da3299a36515eab91e237f3a3fd307cf4400037b97f845db4226c8d9),
   (21367, 0x22ae8cf4fde776105eeda79b8661a2b6e8cc8aa85d7acdbf2a1e88bde167ce2f),
   (23962, 0xa178657581363ca7ea21dc661db65ae29462d98920405008bba5b0e145645e76),
   (26231, 0x782f9a9361d1d6dab203b436253b0d8c7623c8bbafe56f11d8f66af9ff5cafee),
   (29001, 0x6d6a4593fc9f8cf087987f94c5097f079e15c4ae698a09f0f1f7708556901b55),
   (30000, 0xa3a31bc5bf64cedda5faaf77f08b687fac83a2debde33e15f1a1be1d4208711d),
   (31739, 0x296a8c87ab470eaf2906923a70f1f48dae80381cfccb5923a6c6bb1d15895d31),
   (32690, 0xd1f45af1539f37442bda5aa147e441fe6ffa987c679f05fe0423e96e18d83a50),
   (33843, 0x2df0bc28c1647e49d575c5da81f3f991a6501f5ad9134b8f29c0b48dc7acca96),
   (35185, 0x11e952d57dbce33a9573bdcdcad20c083b7250155c05c3cceffa04fed04b6c0d),
   (37882, 0xda3166819d979279fb3967575d72e5b30914eb93e62c02d05b0d4a04c36f52f1),
   (39001, 0x99c471f5487e5a0ce60cdc6d53a9ab58df52e5b9cbd121547265235ddb987058),
   (42315, 0xe693c717c8946c80aea631a30c00315f8811c1fd019b8c792c35eb576fa23f1f),
   (44000, 0x98def7268d9ee11641b73f91593611d9e077e257ebf91a85dbb7a6c15bd8c271),
   (46156, 0x0ceceb0f4cd94f9d7f6e1b90ff1a10fc9fe9ce307428339d8b0910ede31eeaaf),
   (48912, 0xa5504453a92ca1aa324a39dde92756195688bae94adac3e6c1887450e6625c09),
   (50104, 0x06abb38124327da7a156e598fc52927d97be5104a80a62f639d383a485831986),
   (51030, 0x0b6476e61a4ead747ac975b753c4812aaf766ab7effea80d448611ccb717d6ad),
   (52576, 0x3020d95556e84c8fc9b894e801bffcab5712ee208dfac6b384afcab8eef4011b),
   (53300, 0x6ef0e805125dd35f94898cd0354807f20ac8eb7ffb3818dd6a358f9dd28f7db6),
   (54843, 0x71610e58ee19fe0b315de48eb91395a044937c8281b972811587412861f9a14f),
   (55985, 0x5bc10326585bc2247b42c74463aba987db611e98194437d44429a40ca0a9e5b1),
   (57882, 0x352955890c856314497b4f2c20f4d016a94127ee09316af552a0adcc910d0b74),
   (59001, 0x612d979ed0537beab063c0063e3a0ce5a9e9178f73f1ba78b0b2410e21dfadd5),
   (61315, 0x5c058a5c0ecba83dbcc0bfeff943624306b6864ae70aab663fe843f0e8150843),
   (63000, 0x20c49a84cd5d652a6fc928fbcb5ee850ce29e1e444222b5d7747d7783d3be82b),
   (64956, 0x0a744275bc97b27fb51abd32816c311c492b7b186cf5a8b7f9a8ebb7baec2994),
   (66912, 0x89fa0a97a09504255eba7f4d2c0714e8ca5356d9e648577444b31ab3905597ca),
   (68104, 0x7185ce7e3c8bd0d76a307c91af4d4d75c62e40e3c84380009598c5b0797747bb),
   (71030, 0x28806e75b384a1f10f9d517d0d634dd416c17790a05374977c8d9faa1b9e61d3),
   (73215, 0x501587d0a4fe1b9a3443e06f2f3c1bcc9f63f9032f3640ae74c6ac7b637345f2),
   (74655, 0x675d9f273167c68a07e6a2e9f720b57af2a6fa96cb2e269df03d7080c8236a1a),
   (76105, 0x0f9f3474c6ba41a3a025cf570ec2eaf530c5d2d48406c9a9f5a81380796f17da),
   (77889, 0x50cc5d37753e5c2e89dda224e1b93fac2df43971c7085e0052ab3a4380db0671),
   (79001, 0xfbca22dfc1e97aebc9717ce8b15e443a683bac60fa2503c0ca0788f43067eb53),
   (80700, 0x24e06f5775b755d91cd5cd264271662c2a94c9a7b1c6d63894a2bf7af1b14cc3),
   (82430, 0xf66884638cee157e7d5225fb0064643ebf3ffe2c88451a3dc898cc7fe54a0cb7),
   (85132, 0x3f8395e614fb722f50e72ccf7001f5d9e73d4573b4ea2f466e18da866336549e),
   (87115, 0x9ec1504d00fdd9c0c049f5321cf055a651e090641f9656acc332ef2830fef39c),
   (92105, 0x0405d50ec62f578f714b74a32140585fe8c2366dc4d7a7a8f4185d027aa2cc83),
   (95110, 0xfd25cd418f6706246186ee94f8a09ce5fdbf8c700c56fdb72bd174bec46df152),
   (96890, 0x9bed50e5fcbf2adc58bd6053b9abaccbccabfb56908e8785b840c55c95d7c94e),
   (98105, 0x14ff4722b6891bbec768d4aa773c3a64e9a551b94f999adf6031a9babc67dc4d),
   (101901, 0xb3d4b27af1b75db3009791f455acfff616ab4dff70c1258393a8a7586876a4a3),
   (106793, 0x4666daa8b44616dca9aad6b413b296acff2933e666d795f4f286640f94f1abff),
   (110280, 0xb28ab3a9db5849d84456d833755c9c01611a9c98b3da2daff6f4883e50f5c36c),
   (113151, 0x5f0901cb9acb48d30426c359da9f9260b7c99ee5bca76a7e254283b73e2a734a),
   (116182, 0x3b563424f766c83b7bd4f71cbfa55d36bd63e78e3203df316aa8955a208192e1),
   (119100, 0xf1ae217c317865da6562ca62a469b3b64c089a04ca4d54925a96bf4b1cdf91b2),
   (125360, 0xcbce71a0702af2bb2607966ac19a03f28f7459383249166a05f55fa71b7e3c18),
   (140998, 0xb7aee5d5dc68bc56835fc9a9fa17dd169cddbe61aae855d223b59d9c50abdd2b),
   (163221, 0x316394844198d9bce5669a2d51ab08f206e40c158ce4eabad19adc0d7c930bf5),
   (185411, 0x43f0395e7555bd56a3445154095e313ed4ed2aa931a4f40a8ebeaecda63b437b),
   (197200, 0xe9a50ea75118573870c8d9c7908e3e0c589ce581dd98020f4a736b8ed17e1c51),
   (201990, 0x27ef8fd089e999b0a88fe0829a23b73e178b91882e2541fd356a5ac25222f7b6),
   (218123, 0xeb56da11c1ea2ad511813b2c114e20be7c7113181eeea5acc86451c23a451236),
   (240351, 0xb123a60541f00310404c311d2f9168a46dce7c033314a2981557557d464d555a),
   (258999, 0x5bf820f9b91b812a5976e5321d4928e79d83103b40a77e21fc6cfb77a01583a9),
   (286405, 0x3d590a93302cff768268788d244e7326c042f9d14c2746fa3b52ba15d5c5a108),
   (291330, 0x05e3cc54af99ce0c8a35adeb3a093138333a1ed7800a11d1c8a3aea9b39eeeee),
   (302005, 0x1088aacdce9739c41cb57633637250759d67f70583e23ca9d9c9169b0f18c2eb),
   (325100, 0x22b10a33fdf17d31e18fd6b491702505a6162f61e263de1b19ae5ac52be747dd),
   (341290, 0x97dbfe0ce6028d7fef32a57c147a67f743899f59b499664550a19e96fbfd1e9e),
   (356001, 0x50a48f51df7167afbcb3d6ddbaae0d42f383a85367eb6961ced22f9263c8c0f9),
   (362544, 0x6bf678b95f1fe7ab8a9d48baefc990aab41b7444715e1e86c2ade2ce77739862)]

namespace Checkpoints

variable (env : Env) (fCheckpoints : Bool)

/-- **`Checkpoints::CheckBlock`**, with the flag `-checkpoints`. Test networks have no checkpoints. -/
def checkBlock (nHeight : Nat) (hash : Uint256) : Prop :=
  env.fTestNet = true ∨ env.fCakeNet = true ∨ fCheckpoints = false ∨
    ∀ entry ∈ mapCheckpoints.find? (·.1 = nHeight), hash = entry.2

instance (nHeight : Nat) (hash : Uint256) : Decidable (checkBlock env fCheckpoints nHeight hash) :=
  inferInstanceAs (Decidable (_ ∨ _ ∨ _ ∨ _))

/-- **`GetLastCheckpoint`**: the highest checkpoint that is known. -/
def getLastCheckpoint (tree : BlockTree) : Option CBlockIndex :=
  if env.fTestNet = true ∨ env.fCakeNet = true ∨ fCheckpoints = false then none
  else mapCheckpoints.reverse.findSome? fun entry => tree.find env entry.2

end Checkpoints

end Syscoin
