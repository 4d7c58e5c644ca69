import TradingGuardrails.Policy.Rules
import TradingGuardrails.Service.Service

/-!
What the resource of an intent identifies. It joins fields with colons, and the fields of
an order may contain colons themselves, so two orders have one resource exactly when one
account carries the beginning of the other order's symbol behind a colon.
-/
namespace TradingGuardrails

open Text

variable {host : Host} {i j : TradingIntent host}

/-- Where two joined texts agree, they were joined at the same place, or a part of the one
reaches over the place where the other was joined. -/
theorem joined_eq {α : Type} {x : α} {a b c d : List α} : a ++ x :: b = c ++ x :: d ↔
    (a = c ∧ b = d) ∨ (∃ t, c = a ++ x :: t ∧ b = t ++ x :: d) ∨
      ∃ t, a = c ++ x :: t ∧ d = t ++ x :: b := by
  constructor
  · intro h
    rcases List.append_eq_append_iff.mp h with ⟨t, rfl, ht⟩ | ⟨t, rfl, ht⟩
    · cases t with
      | nil =>
          obtain ⟨-, rfl⟩ := List.cons.inj ht
          exact .inl ⟨(List.append_nil a).symm, rfl⟩
      | cons y t =>
          obtain ⟨rfl, rfl⟩ := List.cons.inj ht
          exact .inr (.inl ⟨t, rfl, rfl⟩)
    · cases t with
      | nil =>
          obtain ⟨-, rfl⟩ := List.cons.inj ht
          exact .inl ⟨List.append_nil c, rfl⟩
      | cons y t =>
          obtain ⟨rfl, rfl⟩ := List.cons.inj ht
          exact .inr (.inr ⟨t, rfl, rfl⟩)
  · rintro (⟨rfl, rfl⟩ | ⟨t, rfl, rfl⟩ | ⟨t, rfl, rfl⟩)
    · rfl
    · simp
    · simp

/-- A text without the separator ends where the first joined part ends. -/
theorem joined_inj {α : Type} {x : α} {a b c d : List α} (ha : x ∉ a) (hc : x ∉ c)
    (h : a ++ x :: b = c ++ x :: d) : a = c ∧ b = d := by
  rcases joined_eq.mp h with heq | ⟨t, rfl, -⟩ | ⟨t, rfl, -⟩
  · exact heq
  · simp at hc
  · simp at ha

/-- The second account is the first one, a colon and what the first symbol begins with, up
to the colon behind which the second symbol starts. -/
def Respelled (account symbol account' symbol' : String) : Prop :=
  ∃ part : String, account' = account ++ ":" ++ part ∧ symbol = part ++ ":" ++ symbol'

theorem colon_joined {a b c d : String} : a ++ ":" ++ b = c ++ ":" ++ d ↔
    (a = c ∧ b = d) ∨ Respelled a b c d ∨ Respelled c d a b := by
  have hjoin : ∀ s t : String, (s ++ ":" ++ t).toList = s.toList ++ ':' :: t.toList := by
    simp
  have hrespelled : ∀ {a b c d : String}, Respelled a b c d ↔
      ∃ t, c.toList = a.toList ++ ':' :: t ∧ b.toList = t ++ ':' :: d.toList := by
    intro a b c d
    constructor
    · rintro ⟨part, rfl, rfl⟩
      exact ⟨part.toList, hjoin a part, hjoin part d⟩
    · rintro ⟨t, hc, hb⟩
      refine ⟨String.ofList t, ?_, ?_⟩
      · rw [← String.toList_inj, hjoin, String.toList_ofList, hc]
      · rw [← String.toList_inj, hjoin, String.toList_ofList, hb]
  rw [← String.toList_inj, hjoin, hjoin, joined_eq, hrespelled, hrespelled, String.toList_inj,
    String.toList_inj]

def Action.isCex : Action → Bool
  | .placeOrder | .cancelOrder | .getOrderStatus => true
  | .simulateTransaction | .requestSignature => false

theorem TradingIntent.has_of_text {key s : String} (h : i.value.field? key = some (.str s)) :
    i.has key = true := by
  rw [TradingIntent.has, Json.hasField, h]
  rfl

theorem cex_fields (hcex : i.action.isCex = true) :
    i.has "exchange" = true ∧ i.has "account" = true ∧ i.has "symbol" = true ∧
      i.exchange = "binance" ∧ i.symbol ≠ "" := by
  have hbody : ∃ body, IntentSchema.bodyFields host i.action i.chain = some body ∧
      Check.required "exchange" (Check.string (· == "binance")) ∈ body ∧
      Check.required "account" (Check.string fun s => !s.isEmpty) ∈ body ∧
      Check.required "symbol" (Check.string fun s => !s.isEmpty) ∈ body := by
    cases haction : i.action with
    | simulateTransaction | requestSignature =>
        rw [haction] at hcex
        cases hcex
    | placeOrder =>
        exact ⟨_, rfl, by simp [IntentSchema.cexOrderFields, Check.literal],
          by simp [IntentSchema.cexOrderFields, Check.nonEmpty],
          by simp [IntentSchema.cexOrderFields, Check.nonEmpty]⟩
    | cancelOrder | getOrderStatus =>
        exact ⟨_, rfl, by simp [IntentSchema.cexReferenceFields, Check.literal],
          by simp [IntentSchema.cexReferenceFields, Check.nonEmpty],
          by simp [IntentSchema.cexReferenceFields, Check.nonEmpty]⟩
  obtain ⟨body, hbody, hexchange, haccount, hsymbol⟩ := hbody
  have hexchange := i.body_text hbody hexchange
  have hsymbol := i.body_text hbody hsymbol
  refine ⟨i.has_of_text hexchange.1, i.has_of_text (i.body_text hbody haccount).1,
    i.has_of_text hsymbol.1, beq_iff_eq.mp hexchange.2, ?_⟩
  intro hempty
  have := hsymbol.2
  rw [show i.text "symbol" = "" from hempty] at this
  cases this

def Colonless (s : String) : Prop :=
  ':' ∉ s.toList

instance (s : String) : Decidable (Colonless s) :=
  inferInstanceAs (Decidable (':' ∉ s.toList))

def orderKeys : List String :=
  ["exchange", "accountMode", "maxNotionalUsd", "leverage"]

/-- The fields of an on-chain request name the chain and one of its environments. -/
theorem onchain_body {action : Action} {chain : String} {body : List Check.Field}
    (hcex : action.isCex = false)
    (hbody : IntentSchema.bodyFields host action chain = some body) :
    Colonless chain ∧ (∀ field ∈ body, field.key ∉ orderKeys) ∧
      Check.required "chain" (Check.literal chain) ∈ body ∧
      Check.required "to" Check.nonEmpty ∈ body ∧
      ∃ names, Check.required "chainEnvironment" (Check.oneOf names) ∈ body ∧
        ∀ name ∈ names, Colonless name := by
  have hchain : (chain = "ethereum" ∨ chain = "solana") ∧
      (action = .simulateTransaction ∨ action = .requestSignature) := by
    cases action with
    | placeOrder | cancelOrder | getOrderStatus => cases hcex
    | simulateTransaction =>
        simp only [IntentSchema.bodyFields, IntentSchema.onchainSimulationFields] at hbody
        split at hbody
        · exact ⟨.inl rfl, .inl rfl⟩
        · exact ⟨.inr rfl, .inl rfl⟩
        · cases hbody
    | requestSignature =>
        simp only [IntentSchema.bodyFields, IntentSchema.onchainSigningFields] at hbody
        split at hbody
        · exact ⟨.inl rfl, .inr rfl⟩
        · exact ⟨.inr rfl, .inr rfl⟩
        · cases hbody
  have hethereum : ∀ name ∈ ["sepolia", "mainnet"], Colonless name := by decide
  have hsolana : ∀ name ∈ ["devnet", "mainnet"], Colonless name := by decide
  obtain ⟨hchain, haction⟩ := hchain
  rcases hchain with rfl | rfl
  · refine ⟨by decide, ?_⟩
    rcases haction with rfl | rfl
    · cases hbody
      refine ⟨by decide, ?_, ?_, _, ?_, hethereum⟩ <;>
        simp [IntentSchema.onchainSimulationBase]
    · cases hbody
      refine ⟨?_, ?_, ?_, _, ?_, hethereum⟩ <;>
        simp [Check.required, Check.optional, orderKeys]
  · refine ⟨by decide, ?_⟩
    rcases haction with rfl | rfl
    · cases hbody
      refine ⟨by decide, ?_, ?_, _, ?_, hsolana⟩ <;>
        simp [IntentSchema.onchainSimulationBase]
    · cases hbody
      refine ⟨?_, ?_, ?_, _, ?_, hsolana⟩ <;>
        simp [Check.required, Check.optional, orderKeys]

theorem envelope_keys (action : Action) :
    ∀ field ∈ IntentSchema.intentEnvelope host action, field.key ∉ orderKeys := by
  simp [IntentSchema.intentEnvelope, Check.required, orderKeys]

theorem onchain_has_no {key : String} (hcex : i.action.isCex = false) (hkey : key ∈ orderKeys) :
    i.value.field? key = none := by
  obtain ⟨body, -, hbody, hstrict⟩ := i.fields
  obtain ⟨-, hkeys, -⟩ := onchain_body hcex hbody
  by_contra hhas
  obtain ⟨v, hv⟩ := Option.ne_none_iff_exists'.mp hhas
  obtain ⟨field, hfield, rfl⟩ := Check.strict_known hstrict hv
  rcases List.mem_append.mp hfield with henvelope | hin
  · exact envelope_keys i.action field henvelope hkey
  · exact hkeys field hin hkey

theorem onchain_fields (hcex : i.action.isCex = false) :
    i.has "exchange" = false ∧ i.has "chain" = true ∧ i.has "chainEnvironment" = true ∧
      i.has "to" = true ∧ Colonless i.chain ∧ Colonless i.chainEnvironment := by
  obtain ⟨body, -, hbody, -⟩ := i.fields
  obtain ⟨hcolon, -, hchain, hto, names, henvironment, hnames⟩ := onchain_body hcex hbody
  have hchosen := i.body_text hbody henvironment
  refine ⟨?_, i.has_of_text (i.body_text hbody hchain).1, i.has_of_text hchosen.1,
    i.has_of_text (i.body_text hbody hto).1, hcolon, hnames _ (List.contains_iff_mem.mp hchosen.2)⟩
  rw [TradingIntent.has, Json.hasField, onchain_has_no hcex (by simp [orderKeys])]
  rfl

theorem canonicalResource_cex (hcex : i.action.isCex = true) :
    canonicalResource i = some ("cex:binance:" ++ (i.account ++ ":" ++ i.symbol)) := by
  obtain ⟨hexchange, haccount, hsymbol, hbinance, -⟩ := cex_fields hcex
  have hjoin : canonicalResource i =
      some (String.intercalate ":" ["cex", "binance", i.account, i.symbol]) := by
    simp [canonicalResource, hexchange, haccount, hsymbol, hbinance]
  rw [hjoin, Option.some.injEq, ← String.toList_inj]
  simp [String.intercalate_cons_cons]

theorem canonicalResource_onchain (hcex : i.action.isCex = false) :
    canonicalResource i =
      some ("onchain:" ++ (i.chain ++ ":" ++ (i.chainEnvironment ++ ":" ++ i.target))) := by
  obtain ⟨hexchange, hchain, henvironment, hto, -, -⟩ := onchain_fields hcex
  have hjoin : canonicalResource i =
      some (String.intercalate ":" ["onchain", i.chain, i.chainEnvironment, i.target]) := by
    simp [canonicalResource, hexchange, hchain, henvironment, hto]
  rw [hjoin, Option.some.injEq, ← String.toList_inj]
  simp [String.intercalate_cons_cons]

def SameSubject (i j : TradingIntent host) : Prop :=
  (i.action.isCex = true → i.exchange = j.exchange ∧ i.account = j.account ∧
    i.symbol = j.symbol) ∧
  (i.action.isCex = false → i.chain = j.chain ∧ i.chainEnvironment = j.chainEnvironment ∧
    i.target = j.target)

/-- The account of one order ends, behind a colon, as the symbol of the other one begins. -/
def Confusable (i j : TradingIntent host) : Prop :=
  Respelled i.account i.symbol j.account j.symbol ∨
    Respelled j.account j.symbol i.account i.symbol

theorem ne_colon_append (s part : String) : s ≠ s ++ ":" ++ part := by
  intro h
  have hlength := congrArg String.length h
  have hcolon : (":" : String).length = 1 := by decide
  simp only [String.length_append] at hlength
  omega

theorem not_respelled_self {account symbol symbol' : String} :
    ¬Respelled account symbol account symbol' := by
  rintro ⟨part, h, -⟩
  exact ne_colon_append account part h

theorem sameSubject_cex (hcex : i.action.isCex = true) (haction : i.action = j.action)
    (heq : canonicalResource i = canonicalResource j) : SameSubject i j ↔ ¬Confusable i j := by
  have hcex' : j.action.isCex = true := haction ▸ hcex
  rw [canonicalResource_cex hcex, canonicalResource_cex hcex', Option.some.injEq,
    String.append_right_inj, colon_joined] at heq
  constructor
  · intro hsame hconfusable
    obtain ⟨-, haccount, -⟩ := hsame.1 hcex
    rw [Confusable, haccount] at hconfusable
    rcases hconfusable with h | h
    · exact not_respelled_self h
    · exact not_respelled_self h
  · intro hnot
    rcases heq with ⟨haccount, hsymbol⟩ | hrespelled
    · have hexchange : i.exchange = j.exchange :=
        (cex_fields hcex).2.2.2.1.trans (cex_fields hcex').2.2.2.1.symm
      exact ⟨fun _ => ⟨hexchange, haccount, hsymbol⟩, fun h => absurd hcex (by simp [h])⟩
    · exact absurd hrespelled hnot

theorem sameSubject_onchain (hcex : i.action.isCex = false) (haction : i.action = j.action)
    (heq : canonicalResource i = canonicalResource j) : SameSubject i j := by
  have hcex' : j.action.isCex = false := haction ▸ hcex
  obtain ⟨-, -, -, -, hchain, henvironment⟩ := onchain_fields hcex
  obtain ⟨-, -, -, -, hchain', henvironment'⟩ := onchain_fields hcex'
  rw [canonicalResource_onchain hcex, canonicalResource_onchain hcex', Option.some.injEq,
    String.append_right_inj, ← String.toList_inj] at heq
  simp only [String.toList_append, String.reduceToList, List.append_assoc, List.cons_append,
    List.nil_append] at heq
  obtain ⟨heq, hrest⟩ := joined_inj hchain hchain' heq
  obtain ⟨hrest, htarget⟩ := joined_inj henvironment henvironment' hrest
  exact ⟨fun h => absurd hcex (by simp [h]), fun _ =>
    ⟨String.toList_inj.mp heq, String.toList_inj.mp hrest, String.toList_inj.mp htarget⟩⟩

namespace Evaluation

variable {evaluation : Evaluation host} {verdict riskResult : Json}

theorem policyInput_resource :
    (PolicyInput.ofJson (evaluation.policyInput verdict riskResult)).resource =
      (canonicalResource evaluation.intent).getD evaluation.intent.resource :=
  rfl

end Evaluation

/-- The account is not the named one, but the resource of the order begins like the entry. -/
def MistakenFor (account symbol named : String) : Prop :=
  (∃ part, account = named ++ ":" ++ part) ∨ ∃ rest, Respelled account symbol named rest

theorem startsWith_iff {s p : String} : Rego.startsWith s p = true ↔ ∃ rest, s = p ++ rest := by
  rw [Rego.startsWith, List.isPrefixOf_iff_prefix]
  constructor
  · rintro ⟨rest, h⟩
    refine ⟨String.ofList rest, ?_⟩
    rw [← String.toList_inj, String.toList_append, String.toList_ofList, h]
  · rintro ⟨rest, rfl⟩
    exact ⟨rest.toList, String.toList_append.symm⟩

theorem endsWith_colon (s : String) : Rego.endsWith (s ++ ":") ":" = true := by
  rw [Rego.endsWith, List.isSuffixOf_iff_suffix]
  exact ⟨s.toList, String.toList_append.symm⟩

/-- What an entry matches whose resource ends behind the account. -/
theorem Allowlist.resourceMatches_account {entry : Json} {named : String} {input : PolicyInput}
    (hentry : Policy.Allowlist.field entry "resource" =
      some (.str ("cex:binance:" ++ named ++ ":"))) :
    Policy.Allowlist.resourceMatches entry input = true ↔
      ∃ rest, input.resource = "cex:binance:" ++ (named ++ ":" ++ rest) := by
  have hstar : "cex:binance:" ++ named ++ ":" ≠ "*" := by
    intro h
    have := congrArg String.toList h
    simp at this
  have hassoc : ∀ rest : String, "cex:binance:" ++ named ++ ":" ++ rest =
      "cex:binance:" ++ (named ++ ":" ++ rest) := by
    intro rest
    rw [String.append_assoc, String.append_assoc, String.append_assoc]
  simp only [Policy.Allowlist.resourceMatches, hentry, Rego.isText, Bool.or_eq_true,
    Bool.and_eq_true, endsWith_colon, startsWith_iff, hassoc, true_and, beq_iff_eq,
    Option.some.injEq, Json.str.injEq, hstar, false_or]
  constructor
  · rintro (heq | h)
    · refine ⟨"", ?_⟩
      rw [← heq, ← hassoc, String.append_empty]
    · exact h
  · exact .inr

/-- An entry for an account matches an order exactly when the account is the named one, or
the resource of the order only begins as if it were. -/
theorem resourceMatches_order {entry : Json} {named : String} {evaluation : Evaluation host}
    {verdict riskResult : Json} (hentry : Policy.Allowlist.field entry "resource" =
      some (.str ("cex:binance:" ++ named ++ ":")))
    (hcex : evaluation.intent.action.isCex = true) :
    Policy.Allowlist.resourceMatches entry
        (PolicyInput.ofJson (evaluation.policyInput verdict riskResult)) = true ↔
      evaluation.intent.account = named ∨
        MistakenFor evaluation.intent.account evaluation.intent.symbol named := by
  rw [Allowlist.resourceMatches_account hentry, Evaluation.policyInput_resource,
    canonicalResource_cex hcex, Option.getD_some]
  simp only [String.append_right_inj, colon_joined]
  constructor
  · rintro ⟨rest, ⟨h, -⟩ | h | ⟨part, h, -⟩⟩
    · exact .inl h
    · exact .inr (.inr ⟨rest, h⟩)
    · exact .inr (.inl ⟨part, h⟩)
  · rintro (h | ⟨part, h⟩ | ⟨rest, h⟩)
    · exact ⟨evaluation.intent.symbol, .inl ⟨h, rfl⟩⟩
    · exact ⟨part ++ ":" ++ evaluation.intent.symbol, .inr (.inr ⟨part, h, rfl⟩)⟩
    · exact ⟨rest, .inr (.inl h)⟩

theorem not_resourceMatches_onchain {entry : Json} {named : String}
    {evaluation : Evaluation host} {verdict riskResult : Json}
    (hentry : Policy.Allowlist.field entry "resource" =
      some (.str ("cex:binance:" ++ named ++ ":")))
    (hcex : evaluation.intent.action.isCex = false) :
    Policy.Allowlist.resourceMatches entry
      (PolicyInput.ofJson (evaluation.policyInput verdict riskResult)) ≠ true := by
  rw [Ne, Allowlist.resourceMatches_account hentry, Evaluation.policyInput_resource,
    canonicalResource_onchain hcex, Option.getD_some]
  rintro ⟨rest, h⟩
  have := congrArg String.toList h
  simp at this

/-- Equal resources name the same subject exactly when no account hides the beginning of
the other order's symbol, and an entry for an account matches the orders of that account
alone exactly when no order is mistaken for one of them. -/
theorem resource_identifies_subject :
    (∀ i j : TradingIntent host, i.action = j.action →
      ((canonicalResource i = canonicalResource j → SameSubject i j) ↔
        ¬(i.action.isCex = true ∧ Confusable i j))) ∧
    ∀ (entry : Json) (named : String) (evaluation : Evaluation host) (verdict riskResult : Json),
      Policy.Allowlist.field entry "resource" =
        some (.str ("cex:binance:" ++ named ++ ":")) →
      ((Policy.Allowlist.resourceMatches entry
          (PolicyInput.ofJson (evaluation.policyInput verdict riskResult)) = true →
        evaluation.intent.action.isCex = true ∧ evaluation.intent.account = named) ↔
      ¬(evaluation.intent.action.isCex = true ∧
        MistakenFor evaluation.intent.account evaluation.intent.symbol named)) := by
  refine ⟨?_, ?_⟩
  · intro i j haction
    cases hcex : i.action.isCex with
    | false =>
        refine iff_of_true (fun heq => sameSubject_onchain hcex haction heq) ?_
        rintro ⟨h, -⟩
        cases h
    | true =>
        rw [eq_self, true_and]
        constructor
        · intro h hconfusable
          have heq : canonicalResource i = canonicalResource j := by
            rw [canonicalResource_cex hcex, canonicalResource_cex (haction ▸ hcex),
              colon_joined.mpr (.inr hconfusable)]
          exact (sameSubject_cex hcex haction heq).mp (h heq) hconfusable
        · intro hnot heq
          exact (sameSubject_cex hcex haction heq).mpr hnot
  · intro entry named evaluation verdict riskResult hentry
    cases hcex : evaluation.intent.action.isCex with
    | false =>
        refine iff_of_true (fun h => absurd h (not_resourceMatches_onchain hentry hcex)) ?_
        rintro ⟨h, -⟩
        cases h
    | true =>
        rw [resourceMatches_order hentry hcex, eq_self, true_and, true_and]
        constructor
        · rintro h hmistaken
          rw [h (.inr hmistaken)] at hmistaken
          rcases hmistaken with ⟨part, hpart⟩ | ⟨rest, hrest⟩
          · exact ne_colon_append named part hpart
          · exact not_respelled_self hrest
        · rintro hnot (h | h)
          · exact h
          · exact absurd h hnot

def cancellationJson (account symbol : String) : Json :=
  .record [
    ("intentId", some (.str "i")),
    ("principal", some (.str "p")),
    ("action", some (.str "cex.cancel_order")),
    ("resource", some (.str "cex:binance:a:b:c")),
    ("environment", some (.str "paper")),
    ("requestedAt", some (.str "t")),
    ("idempotencyKey", some (.str "k")),
    ("rationale", some (.str "x")),
    ("evidence", some (.arr [.str "e"])),
    ("exchange", some (.str "binance")),
    ("account", some (.str account)),
    ("orderId", some (.str "1")),
    ("symbol", some (.str symbol))]

def cancellation : TradingIntent (plainHost id fun _ => id) where
  value := cancellationJson "a" "b:c"
  valid := by decide +kernel

def respelledCancellation : TradingIntent (plainHost id fun _ => id) where
  value := cancellationJson "a:b" "c"
  valid := by decide +kernel

def accountEntry : Json :=
  .obj [("resource", .str "cex:binance:a:")]

def respelledEvaluation : Evaluation (plainHost id fun _ => id) where
  intent := respelledCancellation
  options := {}
  correlationId := "c"
  now := "n"
  scope := "s"
  payloadHash := "h"

theorem resource_identifies_subject_cancellation :
    ¬SameSubject cancellation respelledCancellation ∧
      respelledEvaluation.intent.account ≠ "a" := by
  have hconfusable : Confusable cancellation respelledCancellation :=
    .inl ⟨"b", by decide +kernel, by decide +kernel⟩
  have hmistaken : MistakenFor respelledEvaluation.intent.account
      respelledEvaluation.intent.symbol "a" := .inl ⟨"b", by decide +kernel⟩
  refine ⟨?_, ?_⟩
  · intro h
    exact (resource_identifies_subject.1 cancellation respelledCancellation
      (by decide +kernel)).mp (fun _ => h) ⟨by decide +kernel, hconfusable⟩
  · intro h
    exact (resource_identifies_subject.2 accountEntry "a" respelledEvaluation .null .null
      (by decide +kernel)).mp (fun _ => ⟨by decide +kernel, h⟩) ⟨by decide +kernel, hmistaken⟩

/-- Both are accepted with the one resource, and the entry for account `a` matches the
cancellation on account `a:b`. -/
theorem resource_names_two_accounts : cancellation.action = respelledCancellation.action ∧
    resourceMatches cancellation = true ∧ resourceMatches respelledCancellation = true ∧
    canonicalResource cancellation = canonicalResource respelledCancellation ∧
    cancellation.account ≠ respelledCancellation.account ∧
    cancellation.symbol ≠ respelledCancellation.symbol ∧
    Policy.Allowlist.resourceMatches accountEntry
      (PolicyInput.ofJson (respelledEvaluation.policyInput .null .null)) = true ∧
    respelledEvaluation.intent.account = "a:b" := by
  decide +kernel

end TradingGuardrails
