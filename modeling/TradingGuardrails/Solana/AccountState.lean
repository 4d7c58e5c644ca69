import TradingGuardrails.Host
import TradingGuardrails.Solana.Parser
import TradingGuardrails.Text.Decimal
import TradingGuardrails.Tlv

/-!
The state of Solana accounts before and after a simulation, and the balance changes that they
show. The data of a token account is laid out in bytes: its mint, its amount, its state, and
in the newer token program extensions behind a byte that tells accounts from mints.
-/
namespace TradingGuardrails

open Text Tlv

namespace Solana

structure AccountSnapshot where
  lamports : Nat
  owner : String
  data : List UInt8
  executable : Bool
  deriving DecidableEq

abbrev Snapshots := List (String × Option AccountSnapshot)

structure TokenBalance where
  mint : String
  amount : Nat
  deriving DecidableEq

structure BalanceRow where
  account : String
  asset : String
  delta : String
  deriving DecidableEq

def nativeSolAsset : String := "SOL"

def accountExtensions : List Nat := [2, 7, 8, 11, 13, 15, 27]

def mintExtensions : List Nat := [1, 3, 6, 9, 10, 12, 14, 18, 19, 20, 21, 22, 23, 25, 26]

def invalidLayout : Thrown :=
  .ofMessage "Token-2022 account type or extension layout is invalid."

def truncatedExtensions : Thrown := .ofMessage "Token-2022 extensions are truncated."

def unsupportedExtension (type : Nat) : Thrown :=
  .ofMessage ("Unsupported or confidential Token-2022 extension " ++ natText type ++ ".")

/-- `data.readUInt16LE(offset)` -/
def readUInt16LE (data : List UInt8) (offset : Nat) : Nat :=
  readLE ((data.drop offset).take 2)

def inspectFrom (data : List UInt8) (allowed seen : List Nat) (offset : Nat) :
    Except Thrown Unit :=
  if offset < data.length then
    if (data.drop offset).all fun byte => byte == 0 then .ok ()
    else if data.length < offset + 4 then .error truncatedExtensions
    else
      let type := readUInt16LE data offset
      let length := readUInt16LE data (offset + 2)
      if !allowed.contains type || seen.contains type then .error (unsupportedExtension type)
      else if data.length < offset + 4 + length then .error truncatedExtensions
      else inspectFrom data allowed (type :: seen) (offset + (4 + length))
  else .ok ()
termination_by data.length - offset

def inspectExtensions (data : List UInt8) (accountType : UInt8) (allowed : List Nat) :
    Except Thrown Unit :=
  if data.length < 166 ∨ data[165]? ≠ some accountType then .error invalidLayout
  else inspectFrom data allowed [] 166

def validateMint (snapshot : AccountSnapshot) (token2022 : Bool) : Except Thrown Unit :=
  if snapshot.data.length < 82 ∨ snapshot.data[45]? ≠ some 1 then
    .error (.ofMessage "Token mint is truncated or uninitialized.")
  else if snapshot.data.length ≠ 82 then
    if !token2022 then .error (.ofMessage "Classic token mint has an invalid length.")
    else inspectExtensions snapshot.data 1 mintExtensions
  else .ok ()

structure Base58 where
  text : List UInt8 → String
  nonempty : ∀ bytes, text bytes ≠ ""

variable (base58 : Base58)

def mintMissing (mint : String) : Thrown :=
  .ofMessage ("Token-2022 mint " ++ mint ++ " is missing from the observation set.")

/-- The mint of an account of the newer token program must be observed and valid. -/
def checkMint (token2022 : Bool) (snapshots : Snapshots) (mint : String) : Except Thrown Unit :=
  if !token2022 then .ok ()
  else match snapshots.lookup mint with
  | some (some mintSnapshot) =>
      if mintSnapshot.owner ≠ token2022ProgramId then .error (mintMissing mint)
      else validateMint mintSnapshot true
  | _ => .error (mintMissing mint)

def checkLayout (token2022 : Bool) (data : List UInt8) : Except Thrown Unit :=
  if data.length < 165 ∨ (!token2022 ∧ data.length ≠ 165) then
    .error (.ofMessage "Token account has an invalid length.")
  else if token2022 ∧ data.length ≠ 165 then inspectExtensions data 2 accountExtensions
  else .ok ()

/-- `data.readBigUInt64LE(64)` -/
def amountAt (data : List UInt8) : Nat :=
  readLE ((data.drop 64).take 8)

def decodeAccount (token2022 : Bool) (data : List UInt8) (snapshots : Snapshots) :
    Except Thrown (Option TokenBalance) := do
  checkLayout token2022 data
  let amount := amountAt data
  if data[108]? = some 0 ∧ amount = 0 then .ok none
  else if data[108]? ≠ some 1 ∧ data[108]? ≠ some 2 then
    .error (.ofMessage "Token account state is invalid.")
  else
    let mint := base58.text (data.take 32)
    checkMint token2022 snapshots mint
    .ok (some ⟨mint, amount⟩)

def MintLayout (data : List UInt8) (token2022 : Bool) : Prop :=
  data.length = 82 ∨ (token2022 ∧ 165 < data.length ∧ data[165]? = some 1)

instance (data : List UInt8) (token2022 : Bool) : Decidable (MintLayout data token2022) :=
  inferInstanceAs (Decidable (_ ∨ _))

def decodeToken (snapshot : Option AccountSnapshot) (snapshots : Snapshots) :
    Except Thrown (Option TokenBalance) :=
  match snapshot with
  | none => .ok none
  | some snapshot =>
      if snapshot.executable then .ok none
      else
        let token2022 := snapshot.owner == token2022ProgramId
        if !token2022 ∧ snapshot.owner ≠ tokenProgramId then .ok none
        else
          let data := snapshot.data
          if MintLayout data token2022 then do
            validateMint snapshot token2022
            .ok none
          else decodeAccount base58 token2022 data snapshots

def lamportsOf (snapshot : Option AccountSnapshot) : ℤ :=
  match snapshot with
  | some snapshot => snapshot.lamports
  | none => 0

def amountOf (balance : Option TokenBalance) : ℤ :=
  match balance with
  | some balance => balance.amount
  | none => 0

def mintChanged (before after : Option TokenBalance) : Bool :=
  match before, after with
  | some before, some after => before.mint != after.mint
  | _, _ => false

def diffAddress (pre post : Snapshots) (address : String) : Except Thrown (List BalanceRow) :=
  match pre.lookup address, post.lookup address with
  | some before, some after => do
      let native : BalanceRow :=
        ⟨address, nativeSolAsset, intText (lamportsOf after - lamportsOf before)⟩
      let beforeToken ← decodeToken base58 before pre
      let afterToken ← decodeToken base58 after post
      if mintChanged beforeToken afterToken then
        .error (.ofMessage "Token account mint changed during simulation.")
      else match afterToken.or beforeToken with
        | some balance =>
            if balance.mint = "" then .ok [native]
            else .ok [native, ⟨address, balance.mint,
              intText (amountOf afterToken - amountOf beforeToken)⟩]
        | none => .ok [native]
  | _, _ => .error (.ofMessage "Missing account snapshot.")

def diffObservedBalances (addresses : List String) (pre post : Snapshots) :
    Except Thrown (List BalanceRow) := do
  let rows ← addresses.mapM (diffAddress base58 pre post)
  .ok rows.flatten

/-- Data with an account type, and behind it records of different allowed types and zeros. -/
structure Extended (data : List UInt8) (accountType : UInt8) (allowed : List Nat) : Prop where
  accountType : data[165]? = some accountType
  records : Padded (fun type => type ∈ allowed) (data.drop 166)

/-- The four bytes at an offset, as the type and the length of a record. -/
theorem header {data : List UInt8} {offset : Nat} (h : offset + 4 ≤ data.length) :
    ∃ a b c d, data.drop offset = a :: b :: c :: d :: data.drop (offset + 4) ∧
      readUInt16LE data offset = readLE [a, b] ∧
      readUInt16LE data (offset + 2) = readLE [c, d] := by
  have hlength : 4 ≤ (data.drop offset).length := by
    rw [List.length_drop]
    omega
  have hlater : ∀ n, data.drop (offset + n) = (data.drop offset).drop n :=
    fun n => List.drop_drop.symm
  simp only [readUInt16LE, hlater]
  cases hrest : data.drop offset with
  | nil => simp [hrest] at hlength
  | cons a rest =>
      cases rest with
      | nil => simp [hrest] at hlength
      | cons b rest =>
          cases rest with
          | nil => simp [hrest] at hlength
          | cons c rest =>
              cases rest with
              | nil => simp [hrest] at hlength
              | cons d rest => exact ⟨a, b, c, d, rfl, rfl, rfl⟩

/-- Data that begins with a record at an offset. -/
theorem header_record {data rest : List UInt8} {offset : Nat} {r : TypedValue}
    (h : data.drop offset = r.bytes ++ rest) : readUInt16LE data offset = r.type ∧
      readUInt16LE data (offset + 2) = r.value.length ∧
      offset + (4 + r.value.length) ≤ data.length ∧
      data.drop (offset + (4 + r.value.length)) = rest := by
  have hlength := congrArg List.length h
  rw [List.length_drop, List.length_append, r.length_bytes] at hlength
  have hend : offset + (4 + r.value.length) ≤ data.length := by omega
  obtain ⟨a, b, c, d, hdrop, htype, hlen⟩ := @header data offset (by omega)
  obtain ⟨a', b', c', d', hsplit, htype', hlen'⟩ := r.split rest
  rw [← h, hdrop] at hsplit
  simp only [List.cons.injEq] at hsplit
  obtain ⟨rfl, rfl, rfl, rfl, -⟩ := hsplit
  refine ⟨htype.trans htype', hlen.trans hlen', hend, ?_⟩
  rw [← List.drop_drop, h, ← r.length_bytes, List.drop_left]

/-- Where the bytes at an offset hold what their header says, a record begins. -/
theorem record_at {data : List UInt8} {offset : Nat} (hheader : ¬ data.length < offset + 4)
    (hcontained : ¬ data.length < offset + 4 + readUInt16LE data (offset + 2)) :
    ∃ r : TypedValue, r.type = readUInt16LE data offset ∧ data.drop offset =
      r.bytes ++ data.drop (offset + (4 + readUInt16LE data (offset + 2))) := by
  obtain ⟨a, b, c, d, hdrop, htype, hlength⟩ :=
    @header data offset (by omega)
  have hinside : readLE [c, d] ≤ (data.drop (offset + 4)).length := by
    rw [List.length_drop]
    omega
  obtain ⟨r, hr, -, hsplit⟩ := exists_typedValue a b c d _ hinside
  refine ⟨r, hr.trans htype.symm, ?_⟩
  rw [hdrop, hsplit, List.drop_drop, hlength, Nat.add_assoc]

theorem not_all_zero {bytes : List UInt8} (h : ¬ bytes.all (fun byte => byte == 0) = true) :
    ¬ ∀ b ∈ bytes, b = 0 := by
  intro hall
  apply h
  rw [List.all_eq_true]
  intro b hb
  rw [hall b hb]
  rfl

/-- The loop accepts exactly records of new allowed types and zeros, whatever the offset. -/
theorem inspectFrom_ok {data : List UInt8} {allowed seen : List Nat} {offset : Nat} :
    inspectFrom data allowed seen offset = .ok () ↔
      Padded (fun type => type ∈ allowed ∧ type ∉ seen) (data.drop offset) := by
  fun_induction inspectFrom data allowed seen offset with
  | case1 seen offset hmore hzeros =>
      refine ⟨fun _ => padded_zeros fun b hb => ?_, fun _ => rfl⟩
      simpa using List.all_eq_true.mp hzeros b hb
  | case2 seen offset hmore hzeros htruncated =>
      refine ⟨fun h => absurd h (by simp), fun h => ?_⟩
      obtain ⟨r, rest, hdrop, -⟩ := h.cases (not_all_zero hzeros)
      obtain ⟨-, -, hend, -⟩ := header_record hdrop
      omega
  | case3 seen offset hmore hzeros hheader type hunsupported =>
      refine ⟨fun h => absurd h (by simp), fun h => ?_⟩
      obtain ⟨r, rest, hdrop, hallowed, -⟩ := h.cases (not_all_zero hzeros)
      obtain ⟨htype, -⟩ := header_record hdrop
      rw [← htype] at hallowed
      simp [type, hallowed.1, hallowed.2] at hunsupported
  | case4 seen offset hmore hzeros hheader type length hsupported htruncated =>
      refine ⟨fun h => absurd h (by simp), fun h => ?_⟩
      obtain ⟨r, rest, hdrop, -⟩ := h.cases (not_all_zero hzeros)
      obtain ⟨-, hlength, hend, -⟩ := header_record hdrop
      omega
  | case5 seen offset hmore hzeros hheader type length hsupported hcontained ih =>
      have hnew : type ∈ allowed ∧ type ∉ seen := by simpa using hsupported
      rw [ih]
      constructor
      · intro h
        obtain ⟨r, htype, hdrop⟩ := record_at hheader hcontained
        rw [hdrop]
        refine Padded.cons (h.mono fun other hother => ?_) (htype ▸ hnew)
        simp only [List.mem_cons, not_or] at hother
        exact ⟨⟨hother.1, hother.2.2⟩, fun hsame => hother.2.1 (hsame.trans htype)⟩
      · intro h
        obtain ⟨r, rest, hdrop, hallowed, hrest⟩ := h.cases (not_all_zero hzeros)
        obtain ⟨htype, hlength, -, hlater⟩ := header_record hdrop
        have hlater' : data.drop (offset + (4 + length)) = rest := by rw [← hlater, ← hlength]
        rw [hlater']
        refine hrest.mono fun other hother => ⟨hother.1.1, ?_⟩
        rw [List.mem_cons, not_or]
        exact ⟨fun hsame => hother.2 (hsame.trans htype), hother.1.2⟩
  | case6 seen offset hend =>
      rw [List.drop_eq_nil_of_le (not_lt.mp hend)]
      exact ⟨fun _ => padded_zeros fun b hb => absurd hb List.not_mem_nil, fun _ => rfl⟩

theorem inspectExtensions_ok {data : List UInt8} {accountType : UInt8} {allowed : List Nat} :
    inspectExtensions data accountType allowed = .ok () ↔ Extended data accountType allowed := by
  have hmono : ∀ bytes, Padded (fun type => type ∈ allowed ∧ type ∉ []) bytes ↔
      Padded (fun type => type ∈ allowed) bytes :=
    fun bytes => ⟨fun h => h.mono fun _ ht => ht.1,
      fun h => h.mono fun _ ht => ⟨ht, List.not_mem_nil⟩⟩
  unfold inspectExtensions
  by_cases hlayout : data.length < 166 ∨ data[165]? ≠ some accountType
  · rw [if_pos hlayout]
    refine ⟨fun h => absurd h (by simp), fun h => ?_⟩
    have hlength := (List.getElem?_eq_some_iff.mp h.accountType).1
    rcases hlayout with hshort | htype
    · omega
    · exact absurd h.accountType htype
  · rw [if_neg hlayout, inspectFrom_ok, hmono]
    rw [not_or, not_not] at hlayout
    exact ⟨fun h => ⟨hlayout.2, h⟩, fun h => h.records⟩

def tokenProgram (token2022 : Bool) : String :=
  if token2022 then token2022ProgramId else tokenProgramId

theorem tokenProgram_eq {owner : String} {token2022 : Bool} (h : owner = tokenProgram token2022) :
    (owner == token2022ProgramId) = token2022 := by
  subst h
  cases token2022 <;> decide

/-- Data of an initialized mint, with extensions only in the newer program. -/
structure ValidMint (data : List UInt8) (token2022 : Bool) : Prop where
  initialized : data[45]? = some 1
  layout : data.length = 82 ∨ (token2022 = true ∧ Extended data 1 mintExtensions)

theorem Extended.length {data : List UInt8} {accountType : UInt8} {allowed : List Nat}
    (h : Extended data accountType allowed) : 166 ≤ data.length :=
  (List.getElem?_eq_some_iff.mp h.accountType).1

theorem validateMint_ok {snapshot : AccountSnapshot} {token2022 : Bool} :
    validateMint snapshot token2022 = .ok () ↔ ValidMint snapshot.data token2022 := by
  unfold validateMint
  by_cases hinitialized : snapshot.data.length < 82 ∨ snapshot.data[45]? ≠ some 1
  · rw [if_pos hinitialized]
    refine ⟨fun h => absurd h (by simp), fun h => ?_⟩
    rcases hinitialized with hshort | hzero
    · have hlayout := h.layout.imp_right fun hlater => hlater.2.length
      omega
    · exact absurd h.initialized hzero
  · rw [if_neg hinitialized]
    rw [not_or, not_not] at hinitialized
    by_cases hlength : snapshot.data.length = 82
    · rw [if_neg (not_not.mpr hlength)]
      exact ⟨fun _ => ⟨hinitialized.2, .inl hlength⟩, fun _ => rfl⟩
    · rw [if_pos hlength]
      cases token2022 with
      | false =>
          refine ⟨fun h => absurd h (by simp), fun h => ?_⟩
          exact absurd h.layout (by simp [hlength])
      | true =>
          rw [if_neg (by decide), inspectExtensions_ok]
          exact ⟨fun h => ⟨hinitialized.2, .inr ⟨rfl, h⟩⟩,
            fun h => (h.layout.resolve_left hlength).2⟩

/-- The length of an account, with extensions only in the newer program. -/
def AccountLayout (data : List UInt8) (token2022 : Bool) : Prop :=
  data.length = 165 ∨ (token2022 = true ∧ Extended data 2 accountExtensions)

theorem AccountLayout.length {data : List UInt8} {token2022 : Bool}
    (h : AccountLayout data token2022) : 165 ≤ data.length := by
  have hlength := h.imp_right fun hlater => hlater.2.length
  omega

theorem checkLayout_ok {data : List UInt8} {token2022 : Bool} :
    checkLayout token2022 data = .ok () ↔ AccountLayout data token2022 := by
  unfold checkLayout
  by_cases hbad : data.length < 165 ∨ (!token2022 ∧ data.length ≠ 165)
  · rw [if_pos hbad]
    refine ⟨fun h => absurd h (by simp), fun h => ?_⟩
    rcases hbad with hshort | hclassic
    · have := h.length
      omega
    · exact absurd (h.resolve_left hclassic.2).1 (by simpa using hclassic.1)
  · rw [if_neg hbad]
    rw [not_or, not_and, not_not] at hbad
    cases token2022 with
    | false => simp [AccountLayout, hbad.2 rfl]
    | true =>
        by_cases hlength : data.length = 165
        · simp [AccountLayout, hlength]
        · rw [if_pos ⟨rfl, hlength⟩, inspectExtensions_ok]
          exact ⟨fun h => .inr ⟨rfl, h⟩, fun h => (h.resolve_left hlength).2⟩

/-- The newer program's accounts count only with a valid mint of that program in view. -/
def MintObserved (snapshots : Snapshots) (mint : String) (token2022 : Bool) : Prop :=
  token2022 = true → ∃ snapshot, snapshots.lookup mint = some (some snapshot) ∧
    snapshot.owner = token2022ProgramId ∧ ValidMint snapshot.data true

theorem checkMint_ok {token2022 : Bool} {snapshots : Snapshots} {mint : String} :
    checkMint token2022 snapshots mint = .ok () ↔ MintObserved snapshots mint token2022 := by
  cases token2022 with
  | false => exact ⟨fun _ h => absurd h (by decide), fun _ => rfl⟩
  | true =>
      cases hlookup : snapshots.lookup mint with
      | none => simp [checkMint, MintObserved, hlookup]
      | some found =>
          cases found with
          | none => simp [checkMint, MintObserved, hlookup]
          | some snapshot =>
              by_cases howner : snapshot.owner = token2022ProgramId
              · simp [checkMint, MintObserved, hlookup, howner, validateMint_ok]
              · simp [checkMint, MintObserved, hlookup, howner]

def storedAmount (data : List UInt8) : Nat :=
  ∑ k ∈ Finset.range 8, (data.getD (64 + k) 0).toNat * 256 ^ k

theorem amountAt_eq (data : List UInt8) : amountAt data = storedAmount data := by
  rw [amountAt, readLE_take, storedAmount]
  simp only [List.getD_eq_getElem?_getD, List.getElem?_drop]

inductive Holding (snapshots : Snapshots) : Option AccountSnapshot → Option TokenBalance → Prop
  | missing : Holding snapshots none none
  | executable (snapshot : AccountSnapshot) : snapshot.executable = true →
      Holding snapshots (some snapshot) none
  | foreign (snapshot : AccountSnapshot) :
      (∀ token2022, snapshot.owner ≠ tokenProgram token2022) →
      Holding snapshots (some snapshot) none
  | mint (snapshot : AccountSnapshot) (token2022 : Bool) :
      snapshot.owner = tokenProgram token2022 → ValidMint snapshot.data token2022 →
      Holding snapshots (some snapshot) none
  | closed (snapshot : AccountSnapshot) (token2022 : Bool) :
      snapshot.owner = tokenProgram token2022 → AccountLayout snapshot.data token2022 →
      snapshot.data[108]? = some 0 → storedAmount snapshot.data = 0 →
      Holding snapshots (some snapshot) none
  | account (snapshot : AccountSnapshot) (token2022 : Bool) : snapshot.executable = false →
      snapshot.owner = tokenProgram token2022 → AccountLayout snapshot.data token2022 →
      snapshot.data[108]? = some 1 ∨ snapshot.data[108]? = some 2 →
      MintObserved snapshots (base58.text (snapshot.data.take 32)) token2022 →
      Holding snapshots (some snapshot)
        (some ⟨base58.text (snapshot.data.take 32), storedAmount snapshot.data⟩)

theorem ValidMint.mintLayout {data : List UInt8} {token2022 : Bool}
    (h : ValidMint data token2022) : MintLayout data token2022 :=
  h.layout.imp_right fun hlater => ⟨hlater.1, hlater.2.length, hlater.2.accountType⟩

theorem AccountLayout.not_mint {data : List UInt8} {token2022 : Bool}
    (h : AccountLayout data token2022) : ¬ MintLayout data token2022 := by
  intro hmint
  have hlength := h.length
  rcases hmint with hshort | ⟨-, hlong, htype⟩
  · omega
  · rcases h with hclassic | ⟨-, hextended⟩
    · omega
    · rw [hextended.accountType] at htype
      exact absurd htype (by decide)

theorem decodeAccount_ok {token2022 : Bool} {data : List UInt8} {snapshots : Snapshots}
    {balance : Option TokenBalance} :
    decodeAccount base58 token2022 data snapshots = .ok balance ↔ AccountLayout data token2022 ∧
      ((data[108]? = some 0 ∧ storedAmount data = 0 ∧ balance = none) ∨
        ((data[108]? = some 1 ∨ data[108]? = some 2) ∧
          MintObserved snapshots (base58.text (data.take 32)) token2022 ∧
          balance = some ⟨base58.text (data.take 32), storedAmount data⟩)) := by
  simp only [decodeAccount, amountAt_eq]
  rw [seq_eq_ok, checkLayout_ok]
  refine and_congr_right fun _ => ?_
  by_cases hclosed : data[108]? = some 0 ∧ storedAmount data = 0
  · rw [if_pos hclosed]
    simp [hclosed, eq_comm]
  · have hopen : ¬ (data[108]? = some 0 ∧ storedAmount data = 0 ∧ balance = none) :=
      fun h => hclosed ⟨h.1, h.2.1⟩
    rw [if_neg hclosed, or_iff_right hopen]
    by_cases hstate : data[108]? = some 1 ∨ data[108]? = some 2
    · rw [if_neg (by simpa [or_iff_not_imp_left] using hstate), seq_eq_ok, checkMint_ok,
        and_iff_right hstate]
      exact and_congr_right fun _ => by rw [Except.ok.injEq, eq_comm]
    · rw [if_pos (not_or.mp hstate)]
      simp [hstate]

/-- An account of a token program, which is not executable, is a mint or holds tokens. -/
theorem decodeToken_owned {snapshot : AccountSnapshot} {snapshots : Snapshots} {token2022 : Bool}
    (hpassive : snapshot.executable = false) (howner : snapshot.owner = tokenProgram token2022) :
    decodeToken base58 (some snapshot) snapshots =
      if MintLayout snapshot.data token2022 then do
          validateMint snapshot token2022
          .ok none
      else decodeAccount base58 token2022 snapshot.data snapshots := by
  have hnewer := tokenProgram_eq howner
  have hours : ¬ ((!token2022) = true ∧ snapshot.owner ≠ tokenProgramId) := by
    rw [howner]
    cases token2022 <;> simp [tokenProgram]
  simp only [decodeToken, hpassive, Bool.false_eq_true, if_false, hnewer, if_neg hours]

theorem decodeToken_foreign {snapshot : AccountSnapshot} {snapshots : Snapshots}
    (hforeign : ∀ token2022, snapshot.owner ≠ tokenProgram token2022) :
    decodeToken base58 (some snapshot) snapshots = .ok none := by
  have hnewer : (snapshot.owner == token2022ProgramId) = false :=
    beq_eq_false_iff_ne.mpr (hforeign true)
  have hclassic : snapshot.owner ≠ tokenProgramId := hforeign false
  simp [decodeToken, hnewer, hclassic]

theorem tokenProgram_inj {first second : Bool} (h : tokenProgram first = tokenProgram second) :
    first = second := by
  calc first = (tokenProgram first == token2022ProgramId) := (tokenProgram_eq rfl).symm
    _ = second := tokenProgram_eq h

theorem decodeOwned_ok {snapshot : AccountSnapshot} {snapshots : Snapshots} {token2022 : Bool}
    {balance : Option TokenBalance} (hpassive : snapshot.executable = false)
    (howner : snapshot.owner = tokenProgram token2022) :
    (if MintLayout snapshot.data token2022 then do
          validateMint snapshot token2022
          .ok none
      else decodeAccount base58 token2022 snapshot.data snapshots) = .ok balance ↔
      Holding base58 snapshots (some snapshot) balance := by
  have hsame : ∀ {other}, snapshot.owner = tokenProgram other → other = token2022 :=
    fun hother => tokenProgram_inj (hother.symm.trans howner)
  by_cases hmint : MintLayout snapshot.data token2022
  · rw [if_pos hmint, seq_eq_ok, validateMint_ok]
    constructor
    · intro h
      cases h.2
      exact .mint snapshot token2022 howner h.1
    · intro h
      cases h with
      | executable _ hexecutable => rw [hpassive] at hexecutable; cases hexecutable
      | foreign _ hforeign => exact absurd howner (hforeign token2022)
      | mint _ other hother hvalid =>
          cases hsame hother
          exact ⟨hvalid, rfl⟩
      | closed _ other hother hlayout =>
          cases hsame hother
          exact absurd hmint hlayout.not_mint
      | account _ other _ hother hlayout =>
          cases hsame hother
          exact absurd hmint hlayout.not_mint
  · rw [if_neg hmint, decodeAccount_ok]
    constructor
    · rintro ⟨hlayout, ⟨hstate, hamount, rfl⟩ | ⟨hstate, hobserved, rfl⟩⟩
      · exact .closed snapshot token2022 howner hlayout hstate hamount
      · exact .account snapshot token2022 hpassive howner hlayout hstate hobserved
    · intro h
      cases h with
      | executable _ hexecutable => rw [hpassive] at hexecutable; cases hexecutable
      | foreign _ hforeign => exact absurd howner (hforeign token2022)
      | mint _ other hother hvalid =>
          cases hsame hother
          exact absurd hvalid.mintLayout hmint
      | closed _ other hother hlayout hstate hamount =>
          cases hsame hother
          exact ⟨hlayout, .inl ⟨hstate, hamount, rfl⟩⟩
      | account _ other _ hother hlayout hstate hobserved =>
          cases hsame hother
          exact ⟨hlayout, .inr ⟨hstate, hobserved, rfl⟩⟩

/-- What `decodeToken` reads is what an account holds, and it refuses every other account. -/
theorem decodeToken_ok {snapshot : Option AccountSnapshot} {snapshots : Snapshots}
    {balance : Option TokenBalance} : decodeToken base58 snapshot snapshots = .ok balance ↔
      Holding base58 snapshots snapshot balance := by
  cases snapshot with
  | none =>
      constructor
      · intro h
        cases h
        exact .missing
      · intro h
        cases h
        rfl
  | some snapshot =>
      cases hexecutable : snapshot.executable with
      | true =>
          simp only [decodeToken, hexecutable, if_pos, Except.ok.injEq]
          constructor
          · intro h
            cases h
            exact .executable snapshot hexecutable
          · intro h
            cases h with
            | account _ _ hpassive => simp [hpassive] at hexecutable
            | _ => rfl
      | false =>
          by_cases hforeign : ∀ token2022, snapshot.owner ≠ tokenProgram token2022
          · rw [decodeToken_foreign base58 hforeign, Except.ok.injEq]
            constructor
            · intro h
              cases h
              exact .foreign snapshot hforeign
            · intro h
              cases h with
              | account _ token2022 _ howner => exact absurd howner (hforeign token2022)
              | _ => rfl
          · simp only [not_forall, not_not] at hforeign
            obtain ⟨token2022, howner⟩ := hforeign
            rw [decodeToken_owned base58 hexecutable howner]
            exact decodeOwned_ok base58 hexecutable howner

/-- The rows of an address whose accounts before and after are both in view. -/
inductive Observed (pre post : Snapshots) (address : String) : List BalanceRow → Prop
  | rows {before after : Option AccountSnapshot} {held holds : Option TokenBalance} :
      pre.lookup address = some before → post.lookup address = some after →
      Holding base58 pre before held → Holding base58 post after holds →
      (∀ x ∈ held, ∀ y ∈ holds, x.mint = y.mint) →
      Observed pre post address
        (⟨address, nativeSolAsset, intText (lamportsOf after - lamportsOf before)⟩ ::
          (holds.or held).toList.map fun balance =>
            ⟨address, balance.mint, intText (amountOf holds - amountOf held)⟩)

theorem Holding.mint_ne {snapshots : Snapshots} {snapshot : Option AccountSnapshot}
    {balance : TokenBalance} (h : Holding base58 snapshots snapshot (some balance)) :
    balance.mint ≠ "" := by
  cases h with
  | account => exact base58.nonempty _

theorem mintChanged_eq_false {held holds : Option TokenBalance} :
    mintChanged held holds = false ↔ ∀ x ∈ held, ∀ y ∈ holds, x.mint = y.mint := by
  cases held with
  | none => simp [mintChanged]
  | some x =>
      cases holds with
      | none => simp [mintChanged]
      | some y => simp [mintChanged]

/-- Once both accounts are decoded and of one mint, the rows follow. -/
theorem diffAddress_decoded {pre post : Snapshots} {address : String}
    {before after : Option AccountSnapshot} {held holds : Option TokenBalance}
    (hbefore : pre.lookup address = some before) (hafter : post.lookup address = some after)
    (hheld : Holding base58 pre before held) (hholds : Holding base58 post after holds) :
    diffAddress base58 pre post address =
      if mintChanged held holds then
        .error (.ofMessage "Token account mint changed during simulation.")
      else .ok (⟨address, nativeSolAsset, intText (lamportsOf after - lamportsOf before)⟩ ::
        (holds.or held).toList.map fun balance =>
          ⟨address, balance.mint, intText (amountOf holds - amountOf held)⟩) := by
  have hnamed : ∀ balance ∈ holds.or held, balance.mint ≠ "" := by
    intro balance hbalance
    rcases Option.or_eq_some_iff.mp hbalance with hlast | ⟨-, hfirst⟩
    · subst hlast
      exact hholds.mint_ne
    · subst hfirst
      exact hheld.mint_ne
  simp only [diffAddress, hbefore, hafter, (decodeToken_ok base58).mpr hheld,
    (decodeToken_ok base58).mpr hholds, bind, Except.bind]
  cases hbalance : holds.or held with
  | none => rfl
  | some balance => simp [hnamed balance hbalance]

/-- The rows of an address are what its accounts hold, and other accounts are refused. -/
theorem diffAddress_ok {pre post : Snapshots} {address : String} {rows : List BalanceRow} :
    diffAddress base58 pre post address = .ok rows ↔ Observed base58 pre post address rows := by
  constructor
  · intro h
    cases hbefore : pre.lookup address with
    | none => simp [diffAddress, hbefore] at h
    | some before =>
        cases hafter : post.lookup address with
        | none => simp [diffAddress, hbefore, hafter] at h
        | some after =>
            have hdecoded := h
            simp only [diffAddress, hbefore, hafter] at hdecoded
            obtain ⟨held, hheld, hrest⟩ := bind_eq_ok.mp hdecoded
            obtain ⟨holds, hholds, -⟩ := bind_eq_ok.mp hrest
            have hheld := (decodeToken_ok base58).mp hheld
            have hholds := (decodeToken_ok base58).mp hholds
            rw [diffAddress_decoded base58 hbefore hafter hheld hholds] at h
            cases hchanged : mintChanged held holds with
            | true => simp [hchanged] at h
            | false =>
                rw [hchanged, if_neg Bool.false_ne_true, Except.ok.injEq] at h
                subst h
                exact .rows hbefore hafter hheld hholds (mintChanged_eq_false.mp hchanged)
  · intro h
    obtain ⟨hbefore, hafter, hheld, hholds, hmints⟩ := h
    rw [diffAddress_decoded base58 hbefore hafter hheld hholds,
      mintChanged_eq_false.mpr hmints, if_neg Bool.false_ne_true]

/-- The loop over the addresses succeeds exactly where each of them has its rows. -/
theorem diffObservedBalances_ok {addresses : List String} {pre post : Snapshots}
    {changes : List BalanceRow} : diffObservedBalances base58 addresses pre post = .ok changes ↔
      ∃ rows, List.Forall₂ (Observed base58 pre post) addresses rows ∧ changes = rows.flatten := by
  simp only [diffObservedBalances, bind_eq_ok, mapM_eq_ok, diffAddress_ok, Except.ok.injEq,
    eq_comm (a := changes)]

def zeroKey : String := "11111111111111111111111111111111"

def zeroBase58 : Base58 where
  text _ := zeroKey
  nonempty _ := by decide

def extendedAccount (low high : UInt8) : AccountSnapshot where
  lamports := 9
  owner := token2022ProgramId
  data := List.replicate 64 0 ++ [low, high] ++ List.replicate 42 0 ++ [1] ++
    List.replicate 56 0 ++ [2, 7, 0, 0, 0, 0]
  executable := false

def bareMint : AccountSnapshot where
  lamports := 9
  owner := token2022ProgramId
  data := List.replicate 45 0 ++ [1] ++ List.replicate 36 0
  executable := false

def tokenSnapshots (low high : UInt8) : Snapshots :=
  [("a", some (extendedAccount low high)), (zeroKey, some bareMint)]

end Solana
end TradingGuardrails
