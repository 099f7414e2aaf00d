import StakeGov.Engine.Policy
import StakeGov.InMemory.SamplePolicies
import StakeGov.Proofs.RotationCalls

/-!
# Two lists make one blacklist

The contract keeps the addresses that may not send and those that may not receive in two
lists, which are read one after the other and merged (`exec_fetchBlacklist`). The merge
says of an address in which of the lists it stands, in whatever order and how often
(`Blacklist.merges_ofLists`), with one exception: an address that stands only in the second
list, but there more than once, is taken to stand in both (`repetition_bans_sender`).
-/

namespace StakeGov

open Abi (Token Method)
open Step (exec exec_bind)

-- ---------------------------------------------------------------------------
-- What the merge says of an address
-- ---------------------------------------------------------------------------

namespace Blacklist

variable {senders recipients : List Address}

theorem get?_addRecipient (list : Blacklist) (b a : Address) :
    (list.addRecipient b).get? a =
      if b = a then some (if (list.get? a).isSome then .both else .receiving)
      else list.get? a := by
  rw [addRecipient, Table.get?_insert_of]
  split
  · rename_i h
    rw [h]
  · rfl

theorem get?_senders (list : Blacklist) (senders : List Address) (a : Address) :
    (senders.foldl (fun list b => list.insert b .sending) list).get? a =
      if a ∈ senders then some .sending else list.get? a := by
  induction senders generalizing list with
  | nil => rfl
  | cons b senders ih =>
    rw [List.foldl_cons, ih, Table.get?_insert_of]
    by_cases hlater : a ∈ senders
    · simp [hlater]
    · simp [hlater, eq_comm]

theorem get?_recipients (list : Blacklist) (recipients : List Address) (a : Address) :
    (recipients.foldl addRecipient list).get? a =
      if a ∈ recipients then
        some (if (list.get? a).isSome ∨ 2 ≤ recipients.count a then .both else .receiving)
      else list.get? a := by
  induction recipients generalizing list with
  | nil => rfl
  | cons b recipients ih =>
    rw [List.foldl_cons, ih, get?_addRecipient]
    by_cases hb : b = a
    · subst hb
      by_cases hlater : b ∈ recipients
      · have hcount : 0 < recipients.count b := List.count_pos_iff.mpr hlater
        simp only [hlater, if_true, Option.isSome_some, true_or, List.mem_cons_self,
          List.count_cons_self]
        rw [if_pos (.inr (by omega))]
      · simp [hlater, List.count_eq_zero_of_not_mem hlater]
    · simp [hb, Ne.symm hb, List.count_cons_of_ne hb]

theorem get?_ofLists (senders recipients : List Address) (a : Address) :
    (ofLists senders recipients).get? a =
      if a ∈ recipients then
        some (if a ∈ senders ∨ 2 ≤ recipients.count a then .both else .receiving)
      else if a ∈ senders then some .sending else none := by
  have hlisted : ((senders.foldl (fun list b => list.insert b .sending)
      (∅ : Blacklist)).get? a) = if a ∈ senders then some .sending else none :=
    get?_senders ∅ senders a
  rw [ofLists, get?_recipients, hlisted]
  by_cases hsender : a ∈ senders <;> simp [hsender]

/-- A blacklist and the two lists that it merges. Direction and bans of an address go by
the lists it stands in, and a recipient that is repeated counts as a sender. -/
structure Merges (senders recipients : List Address) (list : Blacklist) : Prop where
  keys : ∀ a, a ∈ list.keys ↔ a ∈ senders ∨ a ∈ recipients
  both : ∀ a, a ∈ senders → a ∈ recipients → list.get? a = some .both
  sending : ∀ a, a ∈ senders → a ∉ recipients → list.get? a = some .sending
  receiving : ∀ a, a ∉ senders → recipients.count a = 1 → list.get? a = some .receiving
  repeated : ∀ a, 2 ≤ recipients.count a → list.get? a = some .both
  bansSender : ∀ a, list.bans a .sender ↔ a ∈ senders ∨ 2 ≤ recipients.count a
  bansRecipient : ∀ a, list.bans a .recipient ↔ a ∈ recipients
  bansEither : ∀ a, list.bans a .either ↔ a ∈ senders ∨ a ∈ recipients

theorem merges_ofLists (senders recipients : List Address) :
    Merges senders recipients (ofLists senders recipients) := by
  have hcount : ∀ a, 1 ≤ recipients.count a → a ∈ recipients := fun _ => List.count_pos_iff.mp
  constructor
  · intro a
    rw [Table.mem_keys, get?_ofLists]
    by_cases hsender : a ∈ senders <;> by_cases hrecipient : a ∈ recipients <;>
      simp [hsender, hrecipient]
  · intro a hsender hrecipient
    rw [get?_ofLists, if_pos hrecipient, if_pos (.inl hsender)]
  · intro a hsender hrecipient
    rw [get?_ofLists, if_neg hrecipient, if_pos hsender]
  · intro a hsender honce
    rw [get?_ofLists, if_pos (hcount a (by omega)), if_neg (by simp [hsender, honce])]
  · intro a htwice
    rw [get?_ofLists, if_pos (hcount a (by omega)), if_pos (.inr htwice)]
  all_goals
    intro a
    rw [bans, get?_ofLists]
    by_cases hrecipient : a ∈ recipients
    · by_cases hsender : a ∈ senders ∨ 2 ≤ recipients.count a <;>
        simp [hrecipient, hsender, Check.hits?]
    · by_cases hsender : a ∈ senders <;>
        simp [hrecipient, hsender, List.count_eq_zero_of_not_mem hrecipient, Check.hits?]

theorem ofLists_congr {senders' recipients' : List Address}
    (hsenders : ∀ a, a ∈ senders ↔ a ∈ senders')
    (hrecipients : ∀ a, a ∈ recipients ↔ a ∈ recipients')
    (hrepeated : ∀ a, a ∉ senders → (2 ≤ recipients.count a ↔ 2 ≤ recipients'.count a)) :
    ofLists senders recipients = ofLists senders' recipients' := by
  refine Table.ext_get? fun a => ?_
  rw [get?_ofLists, get?_ofLists]
  by_cases hsender : a ∈ senders
  · simp [hsender, ← hsenders a, ← hrecipients a]
  · simp [hsender, ← hsenders a, ← hrecipients a, hrepeated a hsender]

end Blacklist

-- ---------------------------------------------------------------------------
-- Reading the two lists
-- ---------------------------------------------------------------------------

namespace BlockContext

open Registry

variable (ctx : BlockContext)

def listMethod (name : String) : Method := ⟨name, [], [.array .address]⟩

def listMessage (name : String) : Message :=
  callMessage ctx.header.coinbase SystemContract.addressList.address
    ((listMethod name).selector ++ Abi.encode []) 0

structure Returns (name : String) (l : Ledger) (list : List Address) : Prop where
  success : (ctx.reply (ctx.listMessage name) l).error = none
  decoded : Abi.decode [.array .address] (ctx.reply (ctx.listMessage name) l).returnData =
    .ok [.ofAddresses list]

theorem Returns.of_encode {ctx : BlockContext} {name : String} {l : Ledger} {list : List Address}
    (h : ctx.reply (ctx.listMessage name) l = .success (Abi.encode [.ofAddresses list]))
    (hshort : (Abi.encode [.ofAddresses list]).length < 2 ^ 64) : ctx.Returns name l list where
  success := by rw [h, Outcome.success]
  decoded := by
    rw [h]
    exact Abi.decode_encode rfl ((Abi.checkAll_ok rfl).mpr (.cons (check_addresses list) .nil))
      hshort

/-- The two lists of the contract, of which the second is read on what the first call
leaves. -/
structure Lists (l : Ledger) (senders recipients : List Address) : Prop where
  senders : ctx.Returns "getBlacksFrom" l senders
  recipients : ctx.Returns "getBlacksTo"
    (ctx.ledgerAfter (ctx.listMessage "getBlacksFrom") l) recipients

variable {ctx} {r : Run}

theorem exec_addressList {name : String} {list : List Address} (what : String)
    (hm : SystemContract.addressList.method name = .ok (listMethod name))
    (h : ctx.Returns name r.ledger list) :
    exec (do addressList what (← ctx.callAsCoinbase .addressList name [])) r =
      (.ok list, ctx.afterCall (ctx.listMessage name) r) := by
  have hpack : SystemContract.addressList.pack name [] =
      .ok ((listMethod name).selector ++ Abi.encode []) := SystemContract.pack_ok hm rfl rfl
  have hcall : exec (ctx.callAsCoinbase .addressList name []) r =
      (.ok [.ofAddresses list], ctx.afterCall (ctx.listMessage name) r) :=
    ctx.exec_callMethod_ok (m := listMethod name) hm hpack h.success h.decoded rfl
  rw [Step.exec_bind_of_ok hcall, addressList, List.head?_cons, Option.bind_some,
    Abi.addresses?_ofAddresses]
  rfl

theorem exec_fetchBlacklist {senders recipients : List Address}
    (h : ctx.Lists r.ledger senders recipients) :
    exec (fetchBlacklist ctx) r = (.ok (.ofLists senders recipients),
      ctx.afterCall (ctx.listMessage "getBlacksTo")
        (ctx.afterCall (ctx.listMessage "getBlacksFrom") r)) := by
  have hfirst : exec (bannedSenders ctx) r = _ := exec_addressList "blacklist" rfl h.senders
  have hsecond : exec (bannedRecipients ctx) (ctx.afterCall _ r) = _ :=
    exec_addressList "blacklist" rfl h.recipients
  rw [fetchBlacklist, Step.exec_bind_of_ok hfirst, Step.exec_bind_of_ok hsecond]
  rfl

end BlockContext

/-- Whatever two lists the contract gives, they are merged, by what stands in them and not
by order or repetition; but a recipient that is repeated is listed in both roles. -/
theorem fetched_blacklist_merges {ctx : BlockContext} {r : Run}
    {senders recipients : List Address} (h : ctx.Lists r.ledger senders recipients) :
    ∃ list, (exec (fetchBlacklist ctx) r).1 = .ok list ∧
      Blacklist.Merges senders recipients list ∧
      ∀ (ctx' : BlockContext) (r' : Run) (senders' recipients' : List Address),
        ctx'.Lists r'.ledger senders' recipients' →
        (∀ a, a ∈ senders ↔ a ∈ senders') → (∀ a, a ∈ recipients ↔ a ∈ recipients') →
        (∀ a, a ∉ senders → (2 ≤ recipients.count a ↔ 2 ≤ recipients'.count a)) →
        (exec (fetchBlacklist ctx') r').1 = .ok list := by
  refine ⟨_, congrArg Prod.fst (BlockContext.exec_fetchBlacklist h),
    Blacklist.merges_ofLists senders recipients, ?_⟩
  intro ctx' r' senders' recipients' h' hsenders hrecipients hrepeated
  rw [BlockContext.exec_fetchBlacklist h',
    Blacklist.ofLists_congr hsenders hrecipients hrepeated]

-- ---------------------------------------------------------------------------
-- The sample lists
-- ---------------------------------------------------------------------------

theorem SampleLists.lists {senders recipients : List Address}
    (hsenders : (Abi.encode [.ofAddresses senders]).length < 2 ^ 64)
    (hrecipients : (Abi.encode [.ofAddresses recipients]).length < 2 ^ 64) :
    (context senders recipients).Lists start.ledger senders recipients :=
  ⟨.of_encode rfl hsenders, .of_encode rfl hrecipients⟩

open SampleLists in
theorem sample_blacklist_merges :
    ∃ list, (exec (fetchBlacklist (context [1, 2, 1] [2, 3])) start).1 = .ok list ∧
      list.get? 1 = some .sending ∧ list.get? 2 = some .both ∧ list.get? 3 = some .receiving ∧
      list.bans 3 .sender = false := by
  have hlists : (context [1, 2, 1] [2, 3]).Lists start.ledger [1, 2, 1] [2, 3] :=
    lists (by decide +kernel) (by decide +kernel)
  obtain ⟨list, hfetch, hmerges, -⟩ := fetched_blacklist_merges hlists
  refine ⟨list, hfetch, hmerges.sending 1 (by decide) (by decide),
    hmerges.both 2 (by decide) (by decide), hmerges.receiving 3 (by decide) (by decide), ?_⟩
  rw [Bool.eq_false_iff, ne_eq, hmerges.bansSender]
  decide

open SampleLists in
/-- An account that may not receive, listed twice, may not send either; listed once it may. -/
theorem repetition_bans_sender :
    ∃ twice once, (exec (fetchBlacklist (context [] [5, 5])) start).1 = .ok twice ∧
      (exec (fetchBlacklist (context [] [5])) start).1 = .ok once ∧
      twice.get? 5 = some .both ∧ twice.bans 5 .sender = true ∧
      once.get? 5 = some .receiving ∧ once.bans 5 .sender = false := by
  have htwice : (context [] [5, 5]).Lists start.ledger [] [5, 5] :=
    lists (by decide +kernel) (by decide +kernel)
  have honce : (context [] [5]).Lists start.ledger [] [5] :=
    lists (by decide +kernel) (by decide +kernel)
  exact ⟨_, _, congrArg Prod.fst (BlockContext.exec_fetchBlacklist htwice),
    congrArg Prod.fst (BlockContext.exec_fetchBlacklist honce), by decide, by decide, by decide,
    by decide⟩

end StakeGov
