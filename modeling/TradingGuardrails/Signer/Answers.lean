import TradingGuardrails.Signer.Once

/-!
What the answers of the signer carry, and what is left of a key whose attempt has ended:
every signature that is handed out was made under the reservation of its key, for a request
with the same content.
-/
namespace TradingGuardrails

open Text Interleaving

namespace Signer

variable {host : Host} {process : Nat → SignerProcess}

theorem SignerTable.find_eq {table : SignerTable} {key requestHash : String}
    {response : Option OfflineSignature} (h : table.find key = some (requestHash, response)) :
    ∃ row ∈ table, row.idempotencyKey = key ∧ row.requestHash = requestHash ∧
      row.response = response := by
  obtain ⟨row, hrow, heq⟩ := Option.map_eq_some_iff.mp h
  cases heq
  exact ⟨row, List.mem_of_find?_eq_some hrow, by simpa using List.find?_some hrow, rfl, rfl⟩

/-- A row that the database holds was reserved. -/
theorem Held.reserved {past : List Deed} {table : SignerTable} (h : Held past table)
    {row : SignerRow} (hrow : row ∈ table) :
    ∃ row', (⟨.reserve row', .ok true⟩ : Deed) ∈ past ∧ row'.bare = row.bare := by
  have hmem : row.bare ∈ past.filterMap reservedRow := by
    rw [← List.mem_reverse, ← h.rows]
    exact List.mem_map_of_mem hrow
  obtain ⟨⟨op, a⟩, hdeed, heq⟩ := List.mem_filterMap.mp hmem
  cases op with
  | reserve row' =>
      rcases a with e | _ | _
      · cases heq
      · cases heq
      · exact ⟨row', hdeed, Option.some.inj heq⟩
  | now | find | audit | signTransaction | awaitSigned | complete => cases heq

variable {cfg : Config (signerMachine host)}

/-- A result that was found under a key was reserved and published under it. -/
theorem found_done (hdates : ReadsDates host) (h : (signers host process).Reachable cfg) {c : Nat}
    {key requestHash : String} {result : OfflineSignature}
    (hfound : did c (.find key) (.ok (some (requestHash, some result))) ∈ cfg.log) :
    (∃ c' row, did c' (.reserve row) (.ok true) ∈ cfg.log ∧ row.idempotencyKey = key ∧
      row.requestHash = requestHash) ∧
    ∃ c', did c' (.complete result key) (.ok true) ∈ cfg.log := by
  obtain ⟨newer, older, hlog⟩ := List.append_of_mem hfound
  obtain ⟨before, after, steps, hmoment, rfl, -, -, -⟩ :=
    Discipline.past_did (followed hdates process) h hlog
  have hheld := held_reachable hmoment.reachable
  obtain ⟨p, ⟨clock, failure, signedTransaction⟩, -, hperformed⟩ := hmoment.performed
  have hanswer : (perform (.find key) ⟨clock, failure, signedTransaction⟩ before.world).1 =
      .ok (some (requestHash, some result)) := by
    rw [show perform (.find key) ⟨clock, failure, signedTransaction⟩ before.world = _ from
      Option.some.inj hperformed]
  have hlater : ∀ {deed : Deed}, deed ∈ performed before.log →
      ∃ c', did c' deed.1 deed.2 ∈ cfg.log := by
    intro deed hdeed
    obtain ⟨c', hmem⟩ := mem_performed.mp hdeed
    exact ⟨c', hlog ▸ List.mem_append_right _ (List.mem_cons_of_mem _ hmem)⟩
  cases failure with
  | some e => cases hanswer
  | none =>
      obtain ⟨row, hrow, rfl, rfl, hresponse⟩ := SignerTable.find_eq (Except.ok.inj hanswer)
      obtain ⟨row', hreserved, hbare⟩ := hheld.reserved hrow
      obtain ⟨c', hreserved⟩ := hlater hreserved
      have hkey : row'.bare.idempotencyKey = row.bare.idempotencyKey := by rw [hbare]
      have hhash : row'.bare.requestHash = row.bare.requestHash := by rw [hbare]
      exact ⟨⟨c', row', hreserved, hkey, hhash⟩,
        hlater (hheld.responses row hrow result hresponse)⟩

def Collisionless (log : SignerLog host) : Prop :=
  ∀ c p request c' p' request', Serving log c p request → Serving log c' p' request' →
    request.requestHash = request'.requestHash → stringify request.json = stringify request'.json

/-- A result was made for a request by a call that had reserved its key. -/
structure SignedFor (process : Nat → SignerProcess) (log : SignerLog host) (c : Nat)
    (request : SigningRequest host) (result : OfflineSignature) : Prop where
  reserved : did c (.reserve (reservation request)) (.ok true) ∈ log
  signed : did c (.signTransaction (unsigned request)) () ∈ log
  made : ∃ p signedTransaction, Serving log c p request ∧
    did c (.awaitSigned (unsigned request)) (.ok signedTransaction) ∈ log ∧
    result = signature (process p).viem request (process p).address signedTransaction
  published : did c (.complete result request.intent.idempotencyKey) (.ok true) ∈ log

theorem Serving.cons_append {newer older : SignerLog host} {event : Event (signerMachine host)}
    (hlog : Numbered (newer ++ event :: older)) {c p : Nat} {r : SigningRequest host}
    (h : Serving older c p r) : Serving (newer ++ event :: older) c p r := by
  rw [List.append_cons] at hlog ⊢
  exact h.append hlog

theorem signedFor_of_published (hdates : ReadsDates host)
    (h : (signers host process).Reachable cfg) {c : Nat} {result : OfflineSignature} {key : String}
    (hpublished : did c (.complete result key) (.ok true) ∈ cfg.log) :
    ∃ request, request.intent.idempotencyKey = key ∧
      SignedFor process cfg.log c request result := by
  have hnumbered := (Discipline.accounted_reachable (followed hdates process) h).numbered
  have hkept := (Discipline.sound_reachable (followed hdates process) h).kept
  obtain ⟨newer, older, hlog⟩ := List.append_of_mem hpublished
  rw [hlog] at hnumbered hkept
  obtain ⟨p, request, signedTransaction, hserving, rfl, hresult, hreserved, hsigned, hawaited⟩ :=
    completing_done hkept
  have holder : ∀ {event}, event ∈ older → event ∈ cfg.log := fun hmem =>
    hlog ▸ List.mem_append_right _ (List.mem_cons_of_mem _ hmem)
  refine ⟨request, rfl, holder hreserved, holder hsigned,
    ⟨p, signedTransaction, ?_, holder hawaited, hresult⟩, hpublished⟩
  rw [hlog]
  exact hserving.cons_append hnumbered

/-- Every result that is returned was signed for the request that had reserved its key, and
that request has the hash of the one that is answered. -/
theorem answer_signed (hdates : ReadsDates host) (h : (signers host process).Reachable cfg)
    {c : Nat} {response : SignResponse} {result : OfflineSignature}
    (hreturned : .returned c response ∈ cfg.log) (hresult : response.body = .ok result) :
    ∃ p request c' request', Serving cfg.log c p request ∧
      SignedFor process cfg.log c' request' result ∧
      request'.intent.idempotencyKey = request.intent.idempotencyKey ∧
      request'.requestHash = request.requestHash := by
  have hnumbered := (Discipline.accounted_reachable (followed hdates process) h).numbered
  have hkept := (Discipline.sound_reachable (followed hdates process) h).kept
  obtain ⟨newer, older, hlog⟩ := List.append_of_mem hreturned
  have hserved : ∀ {c p r}, Serving older c p r → Serving cfg.log c p r := by
    intro c p r hserving
    rw [hlog] at hnumbered ⊢
    exact hserving.cons_append hnumbered
  have holder : ∀ {event}, event ∈ older → event ∈ cfg.log := fun hmem =>
    hlog ▸ List.mem_append_right _ (List.mem_cons_of_mem _ hmem)
  rw [hlog] at hkept
  obtain ⟨p, request, hserving, hpublished | hfound⟩ := answering_done hresult hkept
  · obtain ⟨request', hkey, hsigned⟩ := signedFor_of_published hdates h (holder hpublished)
    obtain ⟨p', signedTransaction, hserving', -, -⟩ := hsigned.made
    obtain ⟨-, rfl⟩ := hserving'.unique (hserved hserving)
    exact ⟨p, _, c, _, hserved hserving, hsigned, rfl, rfl⟩
  · obtain ⟨⟨c', row, hreserved, hkey, hhash⟩, c'', hpublished⟩ :=
      found_done hdates h (holder hfound)
    obtain ⟨request', hkey', hsigned⟩ := signedFor_of_published hdates h hpublished
    have hclash : SignerTable.clashes (reservation request') row = true := by
      simp only [SignerTable.clashes, Bool.or_eq_true, beq_iff_eq]
      exact .inl (.inl (hkey'.trans hkey.symm))
    obtain ⟨-, rfl⟩ := reservation_unique (held_reachable h) hsigned.reserved hreserved hclash
    exact ⟨p, request, c'', request', hserved hserving, hsigned, hkey, hhash⟩

/-- A call that signs has reserved the key, the intent and the nonce of its request. -/
theorem signing_reserved (hdates : ReadsDates host) (h : (signers host process).Reachable cfg)
    {c p : Nat} {request : SigningRequest host} {transaction : UnsignedTransaction}
    (hsigned : did c (.signTransaction transaction) () ∈ cfg.log)
    (hserving : Serving cfg.log c p request) :
    transaction = unsigned request ∧
      did c (.reserve (reservation request)) (.ok true) ∈ cfg.log := by
  have hnumbered := (Discipline.accounted_reachable (followed hdates process) h).numbered
  have hkept := (Discipline.sound_reachable (followed hdates process) h).kept
  obtain ⟨newer, older, hlog⟩ := List.append_of_mem hsigned
  rw [hlog] at hnumbered hkept hserving ⊢
  obtain ⟨p', request', now, hserving', htransaction, -, -, hreserved⟩ := signing_done hkept
  obtain ⟨-, rfl⟩ := hserving.unique (hserving'.cons_append hnumbered)
  exact ⟨htransaction, List.mem_append_right _ (List.mem_cons_of_mem _ hreserved)⟩

/-- An event with which a call ends: it returns, or its process crashes. -/
def Ends (older : SignerLog host) (c : Nat) : Event (signerMachine host) → Prop
  | .returned c' _ => c' = c
  | .crashed p => ∃ call, entryOf c older = some (p, call)
  | .started _ _ _ | .did _ _ _ | .outside _ => False

theorem quiet_of_ends (hdates : ReadsDates host) (h : (signers host process).Reachable cfg)
    {newer older : SignerLog host} {event : Event (signerMachine host)} {c : Nat}
    (hlog : cfg.log = newer ++ event :: older) (hends : Ends older c event) :
    ∀ later ∈ newer, later.call? ≠ some c := by
  cases event with
  | returned c' response =>
      obtain rfl := hends
      exact (Discipline.returned_last (followed hdates process) h hlog).2
  | crashed p =>
      obtain ⟨call, hentry⟩ := hends
      exact (Discipline.crashed_last (followed hdates process) h hlog hentry).2
  | started | did | outside => cases hends

structure SignsOnce (process : Nat → SignerProcess) (log : SignerLog host) : Prop where
  once : ∀ {newer between older c c' transaction transaction'},
    log = newer ++ did c (.signTransaction transaction) () ::
      (between ++ did c' (.signTransaction transaction') () :: older) →
    ∀ {p p' request request'}, Serving log c p request → Serving log c' p' request' →
    request.intent.idempotencyKey ≠ request'.intent.idempotencyKey ∧
      request.intent.intentId ≠ request'.intent.intentId ∧ transaction.nonce ≠ transaction'.nonce
  authorized : ∀ {newer older c transaction},
    log = newer ++ did c (.signTransaction transaction) () :: older →
    ∃ p request now, Serving older c p request ∧ transaction = unsigned request ∧
      did c .now now ∈ older ∧ Authorized (process p).config request now ∧
      did c (.reserve (reservation request)) (.ok true) ∈ older
  answered : ∀ {c response result}, .returned c response ∈ log → response.body = .ok result →
    ∃ p request c' request', Serving log c p request ∧
      SignedFor process log c' request' result ∧
      request'.intent.idempotencyKey = request.intent.idempotencyKey ∧
      stringify request'.json = stringify request.json ∧ Json.Equiv request'.json request.json
  bound : ∀ {c row}, did c (.reserve row) (.ok true) ∈ log →
    (∀ {c' row'}, did c' (.reserve row') (.ok true) ∈ log →
      row'.idempotencyKey = row.idempotencyKey → c' = c ∧ row' = row) ∧
    ∀ {c' p request transaction}, did c' (.signTransaction transaction) () ∈ log →
      Serving log c' p request → request.intent.idempotencyKey = row.idempotencyKey →
      c' = c ∧ transaction.nonce = row.nonce
  abandoned : ∀ {newer older event c row}, log = newer ++ event :: older → Ends older c event →
    did c (.reserve row) (.ok true) ∈ older →
    (∀ {c' row'}, did c' (.reserve row') (.ok true) ∈ newer →
      row'.idempotencyKey ≠ row.idempotencyKey) ∧
    (∀ {c' p request transaction}, did c' (.signTransaction transaction) () ∈ newer →
      Serving log c' p request → request.intent.idempotencyKey ≠ row.idempotencyKey) ∧
    ∀ {c' p request response result}, .returned c' response ∈ newer →
      response.body = .ok result → Serving log c' p request →
      request.intent.idempotencyKey = row.idempotencyKey →
      did c (.complete result row.idempotencyKey) (.ok true) ∈ older

theorem clashes_of_key {row row' : SignerRow} (h : row.idempotencyKey = row'.idempotencyKey) :
    SignerTable.clashes row row' = true := by
  simp only [SignerTable.clashes, h, beq_self_eq_true, Bool.true_or]

/-- Two signatures of a run share neither key nor intent nor nonce. -/
theorem signatures_apart (hdates : ReadsDates host) (h : (signers host process).Reachable cfg)
    {newer between older : SignerLog host} {c c' p p' : Nat}
    {transaction transaction' : UnsignedTransaction} {request request' : SigningRequest host}
    (hlog : cfg.log = newer ++ did c (.signTransaction transaction) () ::
      (between ++ did c' (.signTransaction transaction') () :: older))
    (hserving : Serving cfg.log c p request) (hserving' : Serving cfg.log c' p' request') :
    SignerTable.clashes (reservation request) (reservation request') = false := by
  have hsigned : did c (.signTransaction transaction) () ∈ cfg.log := by simp [hlog]
  have hsigned' : did c' (.signTransaction transaction') () ∈ cfg.log := by simp [hlog]
  obtain ⟨-, hreserved⟩ := signing_reserved hdates h hsigned hserving
  obtain ⟨-, hreserved'⟩ := signing_reserved hdates h hsigned' hserving'
  by_contra hclash
  rw [Bool.not_eq_false] at hclash
  obtain ⟨rfl, -⟩ := reservation_unique (held_reachable h) hreserved hreserved' hclash
  have hnumbered := (Discipline.accounted_reachable (followed hdates process) h).numbered
  have hkept := (Discipline.sound_reachable (followed hdates process) h).kept
  rw [hlog] at hnumbered hkept
  exact signs_once hnumbered hkept

/-- A key is bound to the call that has reserved it. -/
theorem key_bound (hdates : ReadsDates host) (h : (signers host process).Reachable cfg)
    {c c' p : Nat} {row : SignerRow} {request : SigningRequest host}
    {transaction : UnsignedTransaction} (hreserved : did c (.reserve row) (.ok true) ∈ cfg.log)
    (hsigned : did c' (.signTransaction transaction) () ∈ cfg.log)
    (hserving : Serving cfg.log c' p request)
    (hkey : request.intent.idempotencyKey = row.idempotencyKey) :
    c' = c ∧ transaction.nonce = row.nonce := by
  obtain ⟨rfl, hreserved'⟩ := signing_reserved hdates h hsigned hserving
  obtain ⟨rfl, rfl⟩ := reservation_unique (held_reachable h) hreserved' hreserved
    (clashes_of_key hkey)
  exact ⟨rfl, rfl⟩

theorem signs_once_reachable (hdates : ReadsDates host) (process : Nat → SignerProcess)
    {cfg : Config (signerMachine host)} (h : (signers host process).Reachable cfg)
    (hhash : Collisionless cfg.log) : SignsOnce process cfg.log := by
  have hheld := held_reachable h
  constructor
  case once =>
    intro newer between older c c' transaction transaction' hlog p p' request request' hs hs'
    have hsigned : did c (.signTransaction transaction) () ∈ cfg.log := by simp [hlog]
    have hsigned' : did c' (.signTransaction transaction') () ∈ cfg.log := by simp [hlog]
    have hapart := signatures_apart hdates h hlog hs hs'
    obtain ⟨rfl, -⟩ := signing_reserved hdates h hsigned hs
    obtain ⟨rfl, -⟩ := signing_reserved hdates h hsigned' hs'
    simp only [SignerTable.clashes, Bool.or_eq_false_iff, beq_eq_false_iff_ne] at hapart
    exact ⟨hapart.1.1, hapart.1.2, hapart.2⟩
  case authorized =>
    intro newer older c transaction hlog
    have hkept := (Discipline.sound_reachable (followed hdates process) h).kept
    rw [hlog] at hkept
    exact signing_done hkept
  case answered =>
    intro c response result hreturned hresult
    obtain ⟨p, request, c', request', hserving, hsigned, hkey, hsame⟩ :=
      answer_signed hdates h hreturned hresult
    obtain ⟨p', -, hserving', -⟩ := hsigned.made
    have htext := hhash c' p' request' c p request hserving' hserving hsame
    exact ⟨p, request, c', request', hserving, hsigned, hkey, htext, equiv_of_stringify htext⟩
  case bound =>
    intro c row hreserved
    refine ⟨fun {c' row'} hreserved' hkey => ?_, fun {c' p request transaction} hsigned hserving
      hkey => key_bound hdates h hreserved hsigned hserving hkey⟩
    exact reservation_unique hheld hreserved' hreserved (clashes_of_key hkey)
  case abandoned =>
    intro newer older event c row hlog hends hreserved
    have hquiet := quiet_of_ends hdates h hlog hends
    have hnewer : ∀ {later}, later ∈ newer → later ∈ cfg.log := fun hmem =>
      hlog ▸ List.mem_append_left _ hmem
    have hpast : did c (.reserve row) (.ok true) ∈ cfg.log :=
      hlog ▸ List.mem_append_right _ (List.mem_cons_of_mem _ hreserved)
    refine ⟨?_, ?_, ?_⟩
    · intro c' row' hreserved' hkey
      obtain ⟨rfl, -⟩ := reservation_unique hheld (hnewer hreserved') hpast (clashes_of_key hkey)
      exact hquiet _ hreserved' rfl
    · intro c' p request transaction hsigned hserving hkey
      obtain ⟨rfl, -⟩ := key_bound hdates h hpast (hnewer hsigned) hserving hkey
      exact hquiet _ hsigned rfl
    · intro c' p request response result hreturned hresult hserving hkey
      obtain ⟨p', request', c'', made, hserving', hsigned, hkey', -⟩ :=
        answer_signed hdates h (hnewer hreturned) hresult
      obtain ⟨-, rfl⟩ := hserving.unique hserving'
      have hsame : made.intent.idempotencyKey = row.idempotencyKey := hkey'.trans hkey
      obtain ⟨rfl, -⟩ := reservation_unique hheld hsigned.reserved hpast (clashes_of_key hsame)
      have hpublished := hsigned.published
      rw [hsame, hlog] at hpublished
      rcases List.mem_append.mp hpublished with hlater | hrest
      · exact absurd rfl (hquiet _ hlater)
      · rcases List.mem_cons.mp hrest with rfl | holder
        · cases hends
        · exact holder

def newYear : String := "2026-01-01T00:00:00.000Z"

def paidHost : Host :=
  { plainHost
      (fun _ => "e14d64e65a1c9fadb0f05d1afacb65e4faae8e4343bf1e0c9e05ce4ad2c66c4a")
      (fun _ _ => "522c1bf1fb9f81670064e829be9374c684fb524449f8e31d4f2bf6f2f0d9b197") with
    localeCompare := codeUnitLe
    isDatetime := fun s => s == newYear
    dateParse := fun s => if s = newYear then some 1767225600000 else none }

def paidIntentJson : Json := .obj [
  ("intentId", .str "550e8400-e29b-41d4-a716-446655440001"),
  ("principal", .str "agent.openclaw.strategy-alpha"),
  ("action", .str "onchain.request_signature"),
  ("resource", .str "onchain:ethereum:sepolia:0xc010000000000000000000000000000000000001"),
  ("environment", .str "dev"),
  ("requestedAt", .str newYear),
  ("idempotencyKey", .str "pay-1"),
  ("rationale", .str "Pay the invoice."),
  ("evidence", .arr [.str "snapshot-1"]),
  ("to", .str "0xc010000000000000000000000000000000000001"),
  ("simulationId", .str "550e8400-e29b-41d4-a716-446655440002"),
  ("chain", .str "ethereum"),
  ("chainEnvironment", .str "sepolia"),
  ("expectedDeltas", .arr [.obj [("address", .str "0x7e5f4552091a69125d5dfcb7b8c2659029395bdf"),
    ("asset", .str "eth"), ("minDelta", .str "-42000"), ("maxDelta", .str "0")]])]

def paidRequest : SigningRequest paidHost where
  intentId := "550e8400-e29b-41d4-a716-446655440001"
  correlationId := "pay-1"
  intent := ⟨paidIntentJson, by decide +kernel⟩
  decidedAt := newYear
  decisionToken := "522c1bf1fb9f81670064e829be9374c684fb524449f8e31d4f2bf6f2f0d9b197"
  nonce := 7
  gas := ⟨"21000", by decide +kernel⟩
  maxFeePerGas := ⟨"2", by decide +kernel⟩
  maxPriorityFeePerGas := ⟨"1", by decide +kernel⟩
  uuid := rfl
  correlated := by decide +kernel
  dated := by decide +kernel
  token := by decide +kernel
  safe := by decide

def paidSignature : OfflineSignature where
  intentId := "550e8400-e29b-41d4-a716-446655440001"
  address := "0x7E5F4552091A69125d5DfCb7b8C2659029395Bdf"
  signedTransaction := "0x02f86583aa36a707010282520894c010000000000000000000000000000000000001" ++
    "8080c080a015c8d7031bb2c16ac3ff0ad305f7920291e125b406f951589a576c141471de50" ++
    "a05c8d395811569738f543042d475185c38dbdd9eeba3abe23dfbf6e25c3b139d6"
  transactionHash := "0xe3f831af5701ae59b879caef5c7442ba331ec3942a11be4c55b593aa9577cde5"

def paidViem : Viem where
  isAddress := Evm.isAddressText
  keccak256 _ := paidSignature.transactionHash
  recoverTransactionAddress _ := .ok paidSignature.address
  parseTransaction _ := .ok {
    chainId := sepoliaChainId, target := some "0xc010000000000000000000000000000000000001",
    data := none, value := none, nonce := some 7, gas := some 21000, maxFeePerGas := some 2,
    maxPriorityFeePerGas := some 1 }

def paidSigner : SignerProcess where
  config := ⟨.dev, "dev-decision-secret", 1000000, 100000000000, 10000000000000000, .inl rfl⟩
  viem := paidViem
  address := paidSignature.address

def paidSteps : List (Step (signerMachine paidHost)) :=
  let input : SignerInput := ⟨1767225600500, none, paidSignature.signedTransaction⟩
  let start := fun p => Step.start p (⟨"pay-1", .ok paidRequest⟩ : SignCall paidHost)
  let run := fun c (operations : Nat) => List.replicate operations (Step.run c input)
  start 0 :: run 0 5 ++ start 1 :: run 1 3 ++ .finish 1 :: run 0 3 ++ [.finish 0]

def paidRun : Config (signerMachine paidHost) :=
  (signers paidHost fun _ => paidSigner).exec (Machine.boot []) paidSteps

def asksFor (request : SigningRequest paidHost) : Event (signerMachine paidHost) → Bool
  | .started _ _ call => decide (parsed call = some request)
  | _ => true

def isSignature : Event (signerMachine paidHost) → Bool
  | .did _ (.signTransaction _) _ => true
  | _ => false

def answers : Event (signerMachine paidHost) → Option (Nat × SignResponse)
  | .returned c response => some (c, response)
  | _ => none

theorem signs_once_paid :
    (paidRun.log.countP isSignature = 1 ∧
      paidRun.log.filterMap answers = [(0, ⟨200, .ok paidSignature⟩), (1, ⟨409, .error
        "Signing authorization is already bound or has an unresolved attempt."⟩)]) ∧
    SignsOnce (fun _ => paidSigner) paidRun.log := by
  have hdates : ReadsDates paidHost := by
    intro s hs
    rw [show s = newYear from beq_iff_eq.mp hs]
    decide +kernel
  have hrun : (signers paidHost fun _ => paidSigner).Reachable paidRun :=
    Machine.reachable_exec _ (.boot rfl) paidSteps
  have hevents : (paidRun.log.countP isSignature = 1 ∧
      paidRun.log.filterMap answers = [(0, ⟨200, .ok paidSignature⟩), (1, ⟨409, .error
        "Signing authorization is already bound or has an unresolved attempt."⟩)]) ∧
      paidRun.log.all (asksFor paidRequest) = true := by
    decide +kernel
  have hpaid : ∀ {c p r}, Serving paidRun.log c p r → r = paidRequest := by
    rintro c p r ⟨call, hentry, hbody⟩
    have hstarted := List.all_eq_true.mp hevents.2 _ (started_of_entryOf hentry)
    simpa [asksFor, parsed, hbody] using hstarted
  refine ⟨hevents.1, signs_once_reachable hdates _ hrun ?_⟩
  intro c p r c' p' r' hs hs' _
  rw [hpaid hs, hpaid hs']

end Signer
end TradingGuardrails
