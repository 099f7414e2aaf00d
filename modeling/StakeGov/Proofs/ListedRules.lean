import Mathlib.Data.List.Induction
import StakeGov.InMemory.SamplePolicies
import StakeGov.Proofs.BlacklistMerge

/-!
# The last rule for a topic decides

The contract lists the event rules, which are read one by one (`exec_ruleList`) and sorted
by event and topic, where a later rule takes the place of an earlier one
(`EventRules.check?_ofEntries`). What is sorted in this way bans a log just if the list
itself does (`fetched_rules_ban`).
-/

namespace StakeGov

open Abi (Token Method)
open Step (exec exec_bind)

-- ---------------------------------------------------------------------------
-- Rules sorted by event and topic
-- ---------------------------------------------------------------------------

namespace EventRules

def check? (rules : EventRules) (signature : Hash) (topic : UInt64) : Option Check :=
  (rules.get? signature).bind fun rule => rule.checks.get? topic

theorem check?_add (rules : EventRules) (entry : RuleEntry) (signature : Hash) (topic : UInt64) :
    (rules.add entry).check? signature topic =
      if entry.signature = signature ∧ entry.topic = topic then some entry.check
      else rules.check? signature topic := by
  rw [check?, add, Table.get?_insert_of]
  by_cases hsignature : entry.signature = signature
  · subst hsignature
    rw [if_pos rfl, Option.bind_some, Table.get?_insert_of, check?]
    by_cases htopic : entry.topic = topic
    · rw [if_pos htopic, if_pos ⟨rfl, htopic⟩]
    · rw [if_neg htopic, if_neg fun h => htopic h.2]
      cases rules.get? entry.signature <;> rfl
  · rw [if_neg hsignature, if_neg fun h => hsignature h.1, check?]

theorem check?_ofEntries (entries : List RuleEntry) (signature : Hash) (topic : UInt64) :
    (ofEntries entries).check? signature topic =
      (entries.reverse.find? fun entry => entry.signature = signature ∧ entry.topic = topic).map
        (·.check) := by
  induction entries using List.reverseRecOn with
  | nil => rfl
  | append_singleton entries entry ih =>
    rw [ofEntries, List.foldl_concat, ← ofEntries, check?_add, ih, List.reverse_concat,
      List.find?_cons]
    by_cases h : entry.signature = signature ∧ entry.topic = topic <;> simp [h]

end EventRules

theorem Blacklist.bans_iff {list : Blacklist} {a : Address} {check : Check} :
    list.bans a check ↔
      ∃ direction, list.get? a = some direction ∧ check.hits? direction = some true := by
  unfold bans
  cases list.get? a with
  | none => simp
  | some direction => cases hits : check.hits? direction <;> simp [hits]

namespace Policy

theorem bansTopic_iff {p : Policy} {topics : List Hash} {index : UInt64} {check : Check} :
    p.bansTopic topics index check ↔
      ∃ topic direction, topics[index.toNat]? = some topic ∧
        p.blacklist.get? topic.address = some direction ∧ check.hits? direction = some true := by
  unfold bansTopic
  cases topics[index.toNat]? with
  | none => simp
  | some topic => simp [bansAddress_eq, Blacklist.bans_iff]

theorem bansLog_iff {p : Policy} {log : Log} :
    p.bansLog log ↔
      2 ≤ log.topics.length ∧ ∃ signature index check, log.topics.head? = some signature ∧
        p.rules.check? signature index = some check ∧ p.bansTopic log.topics index check := by
  unfold bansLog
  match log.topics with
  | [] | [_] => simp
  | signature :: second :: rest =>
    have hsome : ∀ s, some signature = some s ↔ s = signature := fun s => by simp [eq_comm]
    have hlength : 2 ≤ (signature :: second :: rest).length := by simp
    simp only [hlength, true_and, List.head?_cons, hsome, exists_and_left, exists_eq_left,
      EventRules.check?]
    cases p.rules.get? signature with
    | none => simp
    | some rule =>
      simp only [Option.bind_some, ← Table.mem_entries, List.any_eq_true, Prod.exists]

end Policy

-- ---------------------------------------------------------------------------
-- Rules as they are listed
-- ---------------------------------------------------------------------------

structure ListedRule where
  signature : Hash
  topic : BitVec 128
  code : UInt8
deriving DecidableEq, Repr

namespace ListedRule

def tokens (rule : ListedRule) : List Token :=
  [.bytes32 rule.signature, .uint (rule.topic.setWidth 256),
    .uint (BitVec.ofNat 256 rule.code.toNat)]

def entry (rule : ListedRule) : RuleEntry :=
  ⟨rule.signature, Word.toUInt64Saturating (rule.topic.setWidth 256), .ofCode rule.code⟩

/-- The codes with a meaning, and the listed addresses that they hit. -/
inductive Hits : UInt8 → Direction → Prop
  | sender {direction : Direction} : direction ≠ .receiving → Hits 1 direction
  | recipient {direction : Direction} : direction ≠ .sending → Hits 2 direction
  | either {direction : Direction} : Hits 3 direction

/-- A code without a meaning, or the one that asks for nothing. -/
def Idle (code : UInt8) : Prop := code = 0 ∨ 3 < code

/-- Whether a rule can have a say about a log: it is for its event and for a topic that 64
bits can count. -/
def concerns (log : Log) (rule : ListedRule) : Bool :=
  log.topics.head? = some rule.signature ∧ rule.topic.toNat < 2 ^ 64

def isFor (signature : Hash) (topic : Nat) (rule : ListedRule) : Bool :=
  rule.signature = signature ∧ rule.topic.toNat = topic

def last? (rules : List ListedRule) (signature : Hash) (topic : Nat) : Option ListedRule :=
  rules.reverse.find? (isFor signature topic)

/-- The rule is one of the list, and there is none for the same topic of its event behind it. -/
structure LastAt (rules : List ListedRule) (i : Nat) (rule : ListedRule) : Prop where
  here : rules[i]? = some rule
  later : ∀ j (other : ListedRule), i < j → rules[j]? = some other →
    ¬ (other.signature = rule.signature ∧ other.topic = rule.topic)

/-- A log is banned by the last rule for one of its topics, with nothing sorted. -/
def Bans (rules : List ListedRule) (blacklist : Blacklist) (log : Log) : Prop :=
  2 ≤ log.topics.length ∧ ∃ i rule, LastAt rules i rule ∧
    log.topics.head? = some rule.signature ∧
    ∃ topic direction, log.topics[rule.topic.toNat]? = some topic ∧
      blacklist.get? topic.address = some direction ∧ Hits rule.code direction

theorem hits_iff {code : UInt8} {direction : Direction} :
    (Check.ofCode code).hits? direction = some true ↔ Hits code direction := by
  constructor
  · intro h
    unfold Check.ofCode at h
    split at h
    · cases h
    split at h
    · rename_i hcode
      subst hcode
      exact .sender (by simpa [Check.hits?] using h)
    split at h
    · rename_i hcode
      subst hcode
      exact .recipient (by simpa [Check.hits?] using h)
    split at h
    · rename_i hcode
      subst hcode
      exact .either
    · cases h
  · rintro (h | h | _)
    · exact congrArg some (bne_iff_ne.mpr h)
    · exact congrArg some (bne_iff_ne.mpr h)
    · rfl

theorem Idle.not_hits {code : UInt8} (h : Idle code) (direction : Direction) :
    ¬ Hits code direction := by
  unfold Idle at h
  rintro (_ | _ | _) <;> exact absurd h (by decide)

theorem isFor_iff {signature : Hash} {topic : Nat} {rule : ListedRule} :
    isFor signature topic rule ↔ rule.signature = signature ∧ rule.topic.toNat = topic :=
  decide_eq_true_iff

theorem isFor_self (rule : ListedRule) : isFor rule.signature rule.topic.toNat rule :=
  isFor_iff.mpr ⟨rfl, rfl⟩

theorem concerns_iff {log : Log} {rule : ListedRule} :
    concerns log rule ↔ log.topics.head? = some rule.signature ∧ rule.topic.toNat < 2 ^ 64 :=
  decide_eq_true_iff

theorem lastAt_iff {rules : List ListedRule} {i : Nat} {rule : ListedRule} :
    LastAt rules i rule ↔ rules[i]? = some rule ∧
      ∀ other ∈ rules.drop (i + 1), ¬ (other.signature = rule.signature ∧
        other.topic = rule.topic) := by
  constructor
  · rintro ⟨hhere, hlater⟩
    refine ⟨hhere, fun other hother => ?_⟩
    obtain ⟨k, hk⟩ := List.getElem?_of_mem hother
    rw [List.getElem?_drop] at hk
    exact hlater (i + 1 + k) other (by omega) hk
  · rintro ⟨hhere, hlater⟩
    refine ⟨hhere, fun j other hj hother => hlater other ?_⟩
    obtain ⟨k, rfl⟩ := Nat.exists_eq_add_of_le (Nat.succ_le_of_lt hj)
    exact List.mem_of_getElem? (List.getElem?_drop.trans hother)

theorem last?_eq_some {rules : List ListedRule} {signature : Hash} {topic : Nat}
    {rule : ListedRule} :
    last? rules signature topic = some rule ↔
      isFor signature topic rule ∧ ∃ i, LastAt rules i rule := by
  have hsame : ∀ other, isFor signature topic rule →
      (isFor signature topic other ↔
        other.signature = rule.signature ∧ other.topic = rule.topic) := by
    intro other hrule
    obtain ⟨rfl, rfl⟩ := isFor_iff.mp hrule
    rw [isFor_iff, BitVec.toNat_inj]
  rw [last?, List.find?_eq_some_iff_append]
  refine and_congr_right fun hrule => ⟨?_, ?_⟩
  · rintro ⟨later, earlier, hsplit, hnone⟩
    have hrules : rules = earlier.reverse ++ rule :: later.reverse := by
      rw [← List.reverse_reverse rules, hsplit]
      simp
    refine ⟨earlier.length, lastAt_iff.mpr ⟨by simp [hrules], fun other hother hfor => ?_⟩⟩
    have hmem : other ∈ later := by
      have hbefore : earlier.reverse.drop (earlier.length + 1) = [] :=
        List.drop_eq_nil_of_le (by simp)
      rw [hrules, List.drop_append, hbefore] at hother
      simpa using hother
    have := hnone other hmem
    simp [(hsame other hrule).mpr hfor] at this
  · rintro ⟨i, hlast⟩
    obtain ⟨hhere, hlater⟩ := lastAt_iff.mp hlast
    refine ⟨(rules.drop (i + 1)).reverse, (rules.take i).reverse, ?_, fun other hother => ?_⟩
    · obtain ⟨hi, rfl⟩ := List.getElem?_eq_some_iff.mp hhere
      have hsplit : rules = rules.take i ++ rules[i] :: rules.drop (i + 1) := by
        rw [← List.drop_eq_getElem_cons hi, List.take_append_drop]
      calc rules.reverse
          = (rules.take i ++ rules[i] :: rules.drop (i + 1)).reverse := congrArg _ hsplit
        _ = _ := by simp
    · have := hlater other (List.mem_reverse.mp hother)
      rw [← hsame other hrule] at this
      simpa using this

theorem toNat_topic (rule : ListedRule) :
    (rule.topic.setWidth 256).toNat = rule.topic.toNat :=
  BitVec.toNat_setWidth_of_le (by decide)

/-- Below the number of topics, an index that 64 bits cannot count is none. -/
theorem entry_topic {rule : ListedRule} {index : UInt64} (h : index.toNat + 1 < 2 ^ 64) :
    rule.entry.topic = index ↔ rule.topic.toNat = index.toNat := by
  have hread : rule.entry.topic.toNat = min rule.topic.toNat (2 ^ 64 - 1) := by
    change (UInt64.ofNatClamp (rule.topic.setWidth 256).toNat).toNat = _
    rw [rule.toNat_topic]
    exact toNat_ofNatClamp _
  have hrule := rule.topic.isLt
  -- all indices from `2 ^ 64 - 1` on are read as one, which is above `index`
  rw [← UInt64.toNat_inj, hread]
  omega

theorem check?_entries {rules : List ListedRule} {signature : Hash} {index : UInt64}
    (h : index.toNat + 1 < 2 ^ 64) :
    (EventRules.ofEntries (rules.map entry)).check? signature index =
      (last? rules signature index.toNat).map fun rule => .ofCode rule.code := by
  have hfor : (fun rule : ListedRule => decide (rule.entry.signature = signature ∧
      rule.entry.topic = index)) = isFor signature index.toNat := by
    funext rule
    exact decide_eq_decide.mpr (and_congr_right' (entry_topic h))
  rw [EventRules.check?_ofEntries, ← List.map_reverse, List.find?_map, Option.map_map]
  exact congrArg (Option.map _) (congrArg (List.find? · rules.reverse) hfor)

theorem bansLog_iff_last {rules : List ListedRule} {blacklist : Blacklist} {log : Log}
    (hsmall : log.topics.length < 2 ^ 64) :
    Policy.bansLog ⟨blacklist, .ofEntries (rules.map entry)⟩ log ↔
      2 ≤ log.topics.length ∧ ∃ signature index rule, log.topics.head? = some signature ∧
        last? rules signature index = some rule ∧
        ∃ topic direction, log.topics[index]? = some topic ∧
          blacklist.get? topic.address = some direction ∧ Hits rule.code direction := by
  rw [Policy.bansLog_iff]
  refine and_congr_right fun _ => exists_congr fun signature => ?_
  constructor
  · rintro ⟨index, check, hhead, hcheck, hbans⟩
    obtain ⟨topic, direction, htopic, hlisted, hhits⟩ := Policy.bansTopic_iff.mp hbans
    have hindex : index.toNat < log.topics.length := (List.getElem?_eq_some_iff.mp htopic).1
    rw [check?_entries (by omega)] at hcheck
    obtain ⟨rule, hrule, rfl⟩ := Option.map_eq_some_iff.mp hcheck
    exact ⟨index.toNat, rule, hhead, hrule, topic, direction, htopic, hlisted, hits_iff.mp hhits⟩
  · rintro ⟨index, rule, hhead, hrule, topic, direction, htopic, hlisted, hhits⟩
    have hindex : index < log.topics.length := (List.getElem?_eq_some_iff.mp htopic).1
    have hplace : (UInt64.ofNat index).toNat = index :=
      UInt64.toNat_ofNat_of_lt' (Nat.lt_trans hindex hsmall)
    refine ⟨UInt64.ofNat index, .ofCode rule.code, hhead, ?_, Policy.bansTopic_iff.mpr
      ⟨topic, direction, by rwa [hplace], hlisted, hits_iff.mpr hhits⟩⟩
    rw [check?_entries (by omega), hplace, hrule]
    rfl

theorem bansLog_iff_bans {rules : List ListedRule} {blacklist : Blacklist} {log : Log}
    (hsmall : log.topics.length < 2 ^ 64) :
    Policy.bansLog ⟨blacklist, .ofEntries (rules.map entry)⟩ log ↔ Bans rules blacklist log := by
  rw [bansLog_iff_last hsmall]
  refine and_congr_right fun _ => ⟨?_, ?_⟩
  · rintro ⟨signature, index, rule, hhead, hlast, h⟩
    obtain ⟨hfor, i, hat⟩ := last?_eq_some.mp hlast
    obtain ⟨rfl, rfl⟩ := isFor_iff.mp hfor
    exact ⟨i, rule, hat, hhead, h⟩
  · rintro ⟨i, rule, hat, hhead, h⟩
    exact ⟨rule.signature, rule.topic.toNat, rule, hhead,
      last?_eq_some.mpr ⟨isFor_self rule, i, hat⟩, h⟩

/-- Two lists agree on a log if they have the same last rules for its topics, except for
those that hit nobody. -/
theorem bansLog_congr {rules rules' : List ListedRule} {blacklist : Blacklist} {log : Log}
    (hsmall : log.topics.length < 2 ^ 64)
    (h : ∀ signature index rule direction, log.topics.head? = some signature → index < 2 ^ 64 →
      Hits rule.code direction →
      (last? rules signature index = some rule ↔ last? rules' signature index = some rule)) :
    Policy.bansLog ⟨blacklist, .ofEntries (rules.map entry)⟩ log =
      Policy.bansLog ⟨blacklist, .ofEntries (rules'.map entry)⟩ log := by
  rw [Bool.eq_iff_iff, bansLog_iff_last hsmall, bansLog_iff_last hsmall]
  refine and_congr_right fun _ => exists_congr fun signature => exists_congr fun index =>
    exists_congr fun rule => and_congr_right fun hhead => ?_
  constructor
  · rintro ⟨hlast, topic, direction, htopic, hlisted, hhits⟩
    have hindex : index < 2 ^ 64 :=
      Nat.lt_trans (List.getElem?_eq_some_iff.mp htopic).1 hsmall
    exact ⟨(h _ _ _ _ hhead hindex hhits).mp hlast, topic, direction, htopic, hlisted, hhits⟩
  · rintro ⟨hlast, topic, direction, htopic, hlisted, hhits⟩
    have hindex : index < 2 ^ 64 :=
      Nat.lt_trans (List.getElem?_eq_some_iff.mp htopic).1 hsmall
    exact ⟨(h _ _ _ _ hhead hindex hhits).mpr hlast, topic, direction, htopic, hlisted, hhits⟩

theorem last?_filter (rules : List ListedRule) {signature : Hash} {topic : Nat}
    {keep : ListedRule → Bool} (h : ∀ rule, isFor signature topic rule → keep rule) :
    last? (rules.filter keep) signature topic = last? rules signature topic := by
  rw [last?, last?, ← List.filter_reverse, List.find?_filter]
  congr
  funext rule
  cases hfor : isFor signature topic rule with
  | true => simp [h rule hfor]
  | false => simp

/-- Rules for other events, and for topics that 64 bits cannot count, have no say. -/
theorem bansLog_of_concerns {rules rules' : List ListedRule} (blacklist : Blacklist) {log : Log}
    (hsmall : log.topics.length < 2 ^ 64)
    (hsame : rules.filter (concerns log) = rules'.filter (concerns log)) :
    Policy.bansLog ⟨blacklist, .ofEntries (rules.map entry)⟩ log =
      Policy.bansLog ⟨blacklist, .ofEntries (rules'.map entry)⟩ log := by
  refine bansLog_congr hsmall fun signature index rule _ hhead hindex _ => ?_
  have hkept : ∀ rule, isFor signature index rule → concerns log rule := by
    intro rule hfor
    obtain ⟨rfl, rfl⟩ := isFor_iff.mp hfor
    exact concerns_iff.mpr ⟨hhead, hindex⟩
  rw [← last?_filter rules hkept, hsame, last?_filter rules' hkept]

theorem bansLog_of_idle {rules : List ListedRule} (blacklist : Blacklist) {log : Log} {i : Nat}
    {idle : ListedRule} (hsmall : log.topics.length < 2 ^ 64) (hlast : LastAt rules i idle)
    (hidle : Idle idle.code) :
    Policy.bansLog ⟨blacklist, .ofEntries (rules.map entry)⟩ log =
      Policy.bansLog ⟨blacklist, .ofEntries
        ((rules.filter fun rule => !isFor idle.signature idle.topic.toNat rule).map entry)⟩ log := by
  refine bansLog_congr hsmall fun signature index rule direction _ _ hhits => ?_
  by_cases hsame : idle.signature = signature ∧ idle.topic.toNat = index
  · obtain ⟨rfl, rfl⟩ := hsame
    refine iff_of_false (fun h => ?_) (fun h => ?_)
    · rw [last?_eq_some.mpr ⟨isFor_self idle, i, hlast⟩] at h
      cases h
      exact hidle.not_hits direction hhits
    · have hmem := List.mem_of_find?_eq_some h
      have hfor := (last?_eq_some.mp h).1
      simp [hfor] at hmem
  · rw [last?_filter]
    intro rule hfor
    obtain ⟨rfl, rfl⟩ := isFor_iff.mp hfor
    rw [Bool.not_eq_true', Bool.eq_false_iff, ne_eq, isFor_iff]
    exact fun h => hsame ⟨h.1.symm, h.2.symm⟩

end ListedRule

-- ---------------------------------------------------------------------------
-- Reading the list
-- ---------------------------------------------------------------------------

namespace Registry

def ruleCountMethod : Method := ⟨"rulesLen", [], [.uint 32]⟩

def ruleMethod : Method := ⟨"getRuleByIndex", [.uint 32], [.bytes32, .uint 128, .uint 8]⟩

theorem pack_ruleCount :
    SystemContract.addressList.pack ruleCountMethod.name [] =
      .ok (ruleCountMethod.selector ++ Abi.encode []) :=
  SystemContract.pack_ok rfl rfl rfl

theorem pack_rule (index : UInt32) :
    SystemContract.addressList.pack ruleMethod.name [indexToken index] =
      .ok (ruleMethod.selector ++ Abi.encode [indexToken index]) :=
  SystemContract.pack_ok rfl rfl ((Abi.checkAll_ok rfl).mpr (.cons (check_index index) .nil))

theorem ruleOf_tokens (rule : ListedRule) : ruleOf rule.tokens = some rule.entry := by
  have hcode : (BitVec.ofNat 256 rule.code.toNat).toNat = rule.code.toNat := by
    have hlt := rule.code.toNat_lt
    rw [BitVec.toNat_ofNat, Nat.mod_eq_of_lt (by omega)]
  change (if (BitVec.ofNat 256 rule.code.toNat).toNat < 256 then _ else _) = _
  rw [hcode, if_pos rule.code.toNat_lt, UInt8.ofNat_toNat, ListedRule.entry]

theorem exec_readFrom_ok {α : Type} {read : UInt32 → Step ContractError α} (items : List α)
    (runs : Nat → Run) (start : Nat)
    (h : ∀ i item, items[i]? = some item →
      exec (read (UInt32.ofNat (start + i))) (runs i) = (.ok item, runs (i + 1))) :
    exec (readFrom read start items.length) (runs 0) = (.ok items, runs items.length) := by
  induction items generalizing start runs with
  | nil => rfl
  | cons item items ih =>
    have hrest : exec (readFrom read (start + 1) items.length) (runs 1) = _ :=
      ih (fun i => runs (i + 1)) (start + 1) fun i other hother => by
        rw [Nat.add_assoc, Nat.add_comm 1 i]
        exact h (i + 1) other hother
    have hfirst : exec (read (UInt32.ofNat start)) (runs 0) = _ := h 0 item rfl
    rw [List.length_cons, readFrom, Step.exec_bind_of_ok hfirst, Step.exec_bind_of_ok hrest]
    rfl

end Registry

namespace BlockContext

open Registry

variable (ctx : BlockContext)

def policyMessage (m : Method) (args : List Token) : Message :=
  callMessage ctx.header.coinbase SystemContract.addressList.address
    (m.selector ++ Abi.encode args) 0

structure Answers (m : Method) (args : List Token) (l : Ledger) (row : List Token) : Prop where
  success : (ctx.reply (ctx.policyMessage m args) l).error = none
  decoded : Abi.decode m.outputs (ctx.reply (ctx.policyMessage m args) l).returnData = .ok row

theorem Answers.of_encode {ctx : BlockContext} {m : Method} {args row : List Token} {l : Ledger}
    (h : ctx.reply (ctx.policyMessage m args) l = .success (Abi.encode row))
    (hcount : m.outputs.length = row.length) (hcheck : Abi.checkAll m.outputs row = .ok ())
    (hshort : (Abi.encode row).length < 2 ^ 64) : ctx.Answers m args l row where
  success := by rw [h, Outcome.success]
  decoded := by
    rw [h]
    exact Abi.decode_encode hcount hcheck hshort

def ruleCountMessage : Message := ctx.policyMessage ruleCountMethod []

def ruleMessage (i : Nat) : Message := ctx.policyMessage ruleMethod [indexToken (UInt32.ofNat i)]

def readRules (r : Run) : Nat → Run
  | 0 => ctx.afterCall ctx.ruleCountMessage r
  | i + 1 => ctx.afterCall (ctx.ruleMessage i) (readRules r i)

/-- The contract of the address policy serves a list of rules: its length, and then each
rule on what the calls before it leave. -/
structure ServesRules (r : Run) (rules : List ListedRule) : Prop where
  small : rules.length < 2 ^ 32
  count : ctx.Answers ruleCountMethod [] r.ledger [.uint (BitVec.ofNat 256 rules.length)]
  entry : ∀ i rule, rules[i]? = some rule →
    ctx.Answers ruleMethod [indexToken (UInt32.ofNat i)] (ctx.readRules r i).ledger rule.tokens

variable {ctx} {r : Run} {rules : List ListedRule}

theorem exec_ruleCount (h : ctx.ServesRules r rules) :
    exec (ruleCount ctx) r = (.ok (UInt32.ofNat rules.length), ctx.readRules r 0) := by
  have hcall : exec (ctx.callAsCoinbase .addressList ruleCountMethod.name []) r = _ :=
    ctx.exec_callMethod_ok (m := ruleCountMethod) rfl pack_ruleCount h.count.success
      h.count.decoded rfl
  have hlength : (BitVec.ofNat 256 rules.length).toNat = rules.length := by
    rw [BitVec.toNat_ofNat, Nat.mod_eq_of_lt (Nat.lt_trans h.small (by decide))]
  refine (Step.exec_bind_of_ok hcall).trans ?_
  change exec (if (BitVec.ofNat 256 rules.length).toNat < UInt32.size then _ else _) _ = _
  rw [hlength, if_pos (show rules.length < UInt32.size from h.small)]
  rfl

theorem exec_rule (h : ctx.ServesRules r rules) {i : Nat} {rule : ListedRule}
    (hrule : rules[i]? = some rule) :
    exec (Registry.rule ctx (UInt32.ofNat i)) (ctx.readRules r i) =
      (.ok rule.entry, ctx.readRules r (i + 1)) := by
  have hcall : exec (ctx.callAsCoinbase .addressList ruleMethod.name
      [indexToken (UInt32.ofNat i)]) (ctx.readRules r i) = _ :=
    ctx.exec_callMethod_ok (m := ruleMethod) rfl (pack_rule _) (h.entry i rule hrule).success
      (h.entry i rule hrule).decoded rfl
  refine (Step.exec_bind_of_ok hcall).trans ?_
  rw [ruleOf_tokens]
  rfl

theorem exec_ruleList (h : ctx.ServesRules r rules) :
    exec (ruleList ctx) r = (.ok (rules.map ListedRule.entry), ctx.readRules r rules.length) := by
  have hall : exec (readFrom (Registry.rule ctx) 0 _) (ctx.readRules r 0) = _ :=
    exec_readFrom_ok (rules.map ListedRule.entry) (ctx.readRules r) 0 fun i item hitem => by
      rw [List.getElem?_map] at hitem
      obtain ⟨rule, hrule, rfl⟩ := Option.map_eq_some_iff.mp hitem
      rw [Nat.zero_add]
      exact exec_rule h hrule
  rw [List.length_map] at hall
  rw [ruleList, Step.exec_bind_of_ok (exec_ruleCount h), UInt32.toNat_ofNat_of_lt' h.small, hall]

theorem exec_fetchRules (h : ctx.ServesRules r rules) :
    exec (fetchRules ctx) r =
      (.ok (.ofEntries (rules.map ListedRule.entry)), ctx.readRules r rules.length) :=
  Step.exec_bind_of_ok (exec_ruleList h)

end BlockContext

/-- Whatever rules the contract serves, a log is banned just by the last rule for one of its
topics. Rules that do not concern it change nothing, and neither do those for a topic whose
last rule hits nobody. -/
theorem fetched_rules_ban {ctx : BlockContext} {r : Run} {rules : List ListedRule}
    (h : ctx.ServesRules r rules) :
    ∃ fetched, (exec (fetchRules ctx) r).1 = .ok fetched ∧
      ∀ (blacklist : Blacklist) (log : Log), log.topics.length < 2 ^ 64 →
        (Policy.bansLog ⟨blacklist, fetched⟩ log ↔ ListedRule.Bans rules blacklist log) ∧
        ∀ (ctx' : BlockContext) (r' : Run) (rules' : List ListedRule),
          ctx'.ServesRules r' rules' →
          (rules.filter (ListedRule.concerns log) = rules'.filter (ListedRule.concerns log) ∨
            ∃ i idle, ListedRule.LastAt rules i idle ∧ ListedRule.Idle idle.code ∧
              rules' = rules.filter fun rule =>
                !ListedRule.isFor idle.signature idle.topic.toNat rule) →
          ∃ fetched', (exec (fetchRules ctx') r').1 = .ok fetched' ∧
            Policy.bansLog ⟨blacklist, fetched'⟩ log =
              Policy.bansLog ⟨blacklist, fetched⟩ log := by
  refine ⟨_, congrArg Prod.fst (BlockContext.exec_fetchRules h), fun blacklist log hsmall =>
    ⟨ListedRule.bansLog_iff_bans hsmall, fun ctx' r' rules' h' hsame => ?_⟩⟩
  refine ⟨_, congrArg Prod.fst (BlockContext.exec_fetchRules h'), Eq.symm ?_⟩
  rcases hsame with hsame | ⟨i, idle, hlast, hidle, rfl⟩
  · exact ListedRule.bansLog_of_concerns blacklist hsmall hsame
  · exact ListedRule.bansLog_of_idle blacklist hsmall hlast hidle

-- ---------------------------------------------------------------------------
-- The sample rules
-- ---------------------------------------------------------------------------

theorem ListedRule.check_tokens (rule : ListedRule) :
    Abi.checkAll Registry.ruleMethod.outputs rule.tokens = .ok () := by
  have htopic : (rule.topic.setWidth 256).toNat < 2 ^ 128 := by
    rw [rule.toNat_topic]
    exact rule.topic.isLt
  have hcode : (BitVec.ofNat 256 rule.code.toNat).toNat < 2 ^ 8 :=
    Nat.lt_of_le_of_lt (Nat.mod_le _ _) rule.code.toNat_lt
  exact (Abi.checkAll_ok rfl).mpr
    (.cons rfl (.cons (Registry.check_uint htopic) (.cons (Registry.check_uint hcode) .nil)))

theorem ListedRule.length_encode (rule : ListedRule) : (Abi.encode rule.tokens).length = 96 := by
  simp [tokens, Abi.encode, Abi.parts, Abi.layout, Abi.heads, Token.part, Abi.Part.tail]

theorem SampleRules.serves (rules : List ListedRule) (hsmall : rules.length < 2 ^ 32) :
    (context (rules.map ListedRule.tokens)).ServesRules start rules := by
  have hplace : ∀ i,
      ((context (rules.map ListedRule.tokens)).readRules start i).ledger.finalised = i + 1 := by
    intro i
    induction i with
    | zero => rfl
    | succ i ih => exact congrArg (· + 1) ih
  have hcount : (BitVec.ofNat 256 rules.length).toNat < 2 ^ 32 :=
    Nat.lt_of_le_of_lt (Nat.mod_le _ _) hsmall
  refine ⟨hsmall, .of_encode ?_ rfl ?_ ?_, fun i rule hrule =>
    .of_encode ?_ rfl rule.check_tokens (by rw [rule.length_encode]; decide)⟩
  · change Outcome.success (Abi.encode [.uint (BitVec.ofNat 256 (rules.map _).length)]) = _
    rw [List.length_map]
  · exact (Abi.checkAll_ok rfl).mpr (.cons (Registry.check_uint hcount) .nil)
  · rw [Abi.encode_uint, Word.length_bytes]
    decide
  · change Outcome.success (Abi.encode (row _ _)) = _
    rw [row, hplace]
    change Outcome.success (Abi.encode ((rules.map _)[i]?.getD [])) = _
    rw [List.getElem?_map, hrule]
    rfl

/-- The second rule takes the place of the first, the third asks for nothing, and the topic
of the fourth is beyond all topics. -/
def SampleRules.rules : List ListedRule :=
  [⟨7, 1, 0⟩, ⟨7, 1, 1⟩, ⟨7, 2, 9⟩, ⟨7, 0x10000000000000001, 3⟩, ⟨8, 1, 0⟩]

open SampleRules in
set_option maxRecDepth 10000 in
theorem sample_rules_ban :
    ∃ fetched shorter,
      (exec (fetchRules (context (rules.map ListedRule.tokens))) start).1 = .ok fetched ∧
      (exec (fetchRules (context ([⟨7, 1, 0⟩, ⟨7, 1, 1⟩, ⟨7, 0x10000000000000001, 3⟩, ⟨8, 1, 0⟩].map
        ListedRule.tokens))) start).1 = .ok shorter ∧
      Policy.bansLog ⟨.ofLists [5] [], fetched⟩ { address := 0, topics := [7, 5, 0] } = true ∧
      Policy.bansLog ⟨.ofLists [5] [], shorter⟩ { address := 0, topics := [7, 0, 5] } =
        Policy.bansLog ⟨.ofLists [5] [], fetched⟩ { address := 0, topics := [7, 0, 5] } := by
  obtain ⟨fetched, hfetch, hbans⟩ := fetched_rules_ban (serves rules (by decide))
  obtain ⟨shorter, hshorter, hsame⟩ :=
    (hbans (.ofLists [5] []) { address := 0, topics := [7, 0, 5] } (by decide)).2 _ _ _
      (serves [⟨7, 1, 0⟩, ⟨7, 1, 1⟩, ⟨7, 0x10000000000000001, 3⟩, ⟨8, 1, 0⟩] (by decide))
      (.inr ⟨2, ⟨7, 2, 9⟩, ListedRule.lastAt_iff.mpr ⟨rfl, by decide⟩, .inr (by decide),
        by decide⟩)
  have hbanned :=
    (hbans (.ofLists [5] []) { address := 0, topics := [7, 5, 0] } (by decide)).1.mpr
      ⟨by decide, 1, ⟨7, 1, 1⟩, ListedRule.lastAt_iff.mpr ⟨rfl, by decide⟩, rfl, 5, .sending, rfl,
        by decide, .sender (by decide)⟩
  exact ⟨fetched, shorter, hfetch, hshorter, hbanned, hsame⟩

end StakeGov
