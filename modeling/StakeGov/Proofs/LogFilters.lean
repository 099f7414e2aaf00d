import Mathlib.Logic.Basic
import StakeGov.Proofs.Numerals
import StakeGov.Proofs.Settlement

/-!
# What a log filter holds

A bit of the filter of some logs is set just if the hash of an emitter or of a topic sets it
(`Bloom.getLsbD_ofLogs`). So a filter misses none of its logs, filters are joined by a bitwise
or, and only who emitted what counts: not how often, in which order, with what data or in
which block (`Bloom.log_filter_exact`).
-/

namespace StakeGov

def Log.emission (log : Log) : Address × List Hash :=
  (log.address, log.topics)

namespace Bloom

variable {logs logs' : List Log} {log : Log} {b b' : Bloom} {n : Nat}

-- ---------------------------------------------------------------------------
-- The bits of an input
-- ---------------------------------------------------------------------------

/-- A bit that an input sets: the low eleven bits of one of the first three pairs of bytes of
its hash. -/
def Marks (input : Bytes) (n : Nat) : Prop :=
  ∃ i < 3, n = Bytes.toNat (((keccak256 input).bytes.drop (2 * i)).take 2) % 2048

theorem Marks.lt {input : Bytes} (h : Marks input n) : n < 2048 := by
  obtain ⟨i, -, rfl⟩ := h
  exact Nat.mod_lt _ (by decide)

theorem pair_of_hash (h : Hash) {i : Nat} (hi : i < 3) :
    Bytes.toNat ((h.bytes.drop (2 * i)).take 2) % 2048 =
      (h.toNat >>> (240 - 16 * i)) % 2048 := by
  have hsplit : 32 = 2 * i + 2 + (30 - 2 * i) := by omega
  have hshift : 240 - 16 * i = 8 * (30 - 2 * i) := by omega
  rw [Word.bytes, hsplit, Bytes.toNat_slice_bigEndian, hshift, Nat.shiftRight_eq_div_pow,
    Nat.pow_mul]
  exact Nat.mod_mod_of_dvd _ (by decide)

theorem mem_positions {input : Bytes} : n ∈ positions input ↔ Marks input n := by
  constructor
  · intro h
    obtain ⟨i, hi, rfl⟩ := List.mem_map.mp h
    have hlt : i < 3 := by
      simp at hi
      omega
    exact ⟨i, hlt, (pair_of_hash _ hlt).symm⟩
  · rintro ⟨i, hlt, rfl⟩
    rw [pair_of_hash _ hlt]
    exact List.mem_map.mpr ⟨i, by simp; omega, rfl⟩

/-- The emitter of the log or one of its topics sets the bit. -/
def Sets (log : Log) (n : Nat) : Prop :=
  Marks (Address.bytes log.address) n ∨ ∃ topic ∈ log.topics, Marks (Word.bytes topic) n

-- ---------------------------------------------------------------------------
-- The bits of a filter
-- ---------------------------------------------------------------------------

/-- Three lists are gone through, of logs, of inputs and of bits, each adding to the bits that
are set. -/
theorem getLsbD_foldl {α : Type} {g : Bloom → α → Bloom} {P : α → Prop}
    (h : ∀ b a, (g b a).getLsbD n = true ↔ b.getLsbD n = true ∨ P a) (b : Bloom) (l : List α) :
    (l.foldl g b).getLsbD n = true ↔ b.getLsbD n = true ∨ ∃ a ∈ l, P a := by
  induction l generalizing b with
  | nil => simp
  | cons a l ih => simp [ih, h, or_assoc]

theorem getLsbD_add (b : Bloom) (input : Bytes) :
    (b.add input).getLsbD n = true ↔ b.getLsbD n = true ∨ Marks input n := by
  have hset : ∀ (b : Bloom) (k : Nat), (b ||| BitVec.twoPow 2048 k).getLsbD n = true ↔
      b.getLsbD n = true ∨ (k < 2048 ∧ k = n) := by
    intro b k
    simp [BitVec.getLsbD_or, BitVec.getLsbD_twoPow]
  rw [add, getLsbD_foldl hset]
  refine or_congr_right ⟨?_, fun h => ⟨n, mem_positions.mpr h, h.lt, rfl⟩⟩
  rintro ⟨k, hk, -, rfl⟩
  exact mem_positions.mp hk

theorem getLsbD_addLog (b : Bloom) (log : Log) :
    (b.addLog log).getLsbD n = true ↔ b.getLsbD n = true ∨ Sets log n := by
  rw [addLog, getLsbD_foldl getLsbD_add]
  simp [inputs, Sets]

theorem getLsbD_ofLogs : (ofLogs logs).getLsbD n = true ↔ ∃ log ∈ logs, Sets log n := by
  rw [ofLogs, getLsbD_foldl getLsbD_addLog]
  simp

theorem testBit_bytes (b : Bloom) (h : n < 2048) :
    ∃ byte, b.bytes[255 - n / 8]? = some byte ∧ byte.toNat.testBit (n % 8) = b.getLsbD n := by
  have hsplit : 256 = 255 - n / 8 + 1 + n / 8 := by omega
  refine ⟨UInt8.ofNat (b.toNat / 256 ^ (n / 8)), ?place, ?bit⟩
  case place =>
    have hbyte := Bytes.getElem?_bigEndian (255 - n / 8) (n / 8) b.toNat
    rwa [← hsplit] at hbyte
  case bit =>
    have hdigit : n % 8 < 8 := Nat.mod_lt n (by decide)
    have hpow : 256 ^ (n / 8) = 2 ^ (8 * (n / 8)) := (Nat.pow_mul 2 8 _).symm
    rw [UInt8.toNat_ofNat', Nat.testBit_mod_two_pow, hpow, Nat.testBit_div_two_pow,
      Nat.mod_add_div, decide_eq_true hdigit, Bool.true_and, BitVec.testBit_toNat]

-- ---------------------------------------------------------------------------
-- Filters of several logs
-- ---------------------------------------------------------------------------

theorem ext_bits (h : ∀ n, b.getLsbD n = true ↔ b'.getLsbD n = true) : b = b' :=
  BitVec.eq_of_getLsbD_eq fun n _ => Bool.eq_iff_iff.mpr (h n)

theorem ofLogs_append (logs more : List Log) :
    ofLogs (logs ++ more) = ofLogs logs ||| ofLogs more := by
  apply ext_bits
  intro n
  simp [BitVec.getLsbD_or, getLsbD_ofLogs, or_and_right, exists_or]

theorem ofLogs_mono (h : logs.map Log.emission ⊆ logs'.map Log.emission)
    (hbit : (ofLogs logs).getLsbD n = true) : (ofLogs logs').getLsbD n = true := by
  obtain ⟨log, hlog, hsets⟩ := getLsbD_ofLogs.mp hbit
  obtain ⟨log', hlog', hsame⟩ := List.mem_map.mp (h (List.mem_map_of_mem hlog))
  obtain ⟨haddress, htopics⟩ := Prod.mk.inj hsame
  refine getLsbD_ofLogs.mpr ⟨log', hlog', ?_⟩
  rwa [Sets, haddress, htopics]

def contains (b : Bloom) (log : Log) : Bool :=
  b &&& ofLogs [log] = ofLogs [log]

theorem contains_iff : b.contains log = true ↔ ∀ n, Sets log n → b.getLsbD n = true := by
  have hlog : ∀ n, (ofLogs [log]).getLsbD n = true ↔ Sets log n := by
    intro n
    simp [getLsbD_ofLogs]
  simp only [contains, decide_eq_true_eq]
  constructor
  · intro h n hn
    have hboth := (hlog n).mpr hn
    rw [← h] at hboth
    simp only [BitVec.getLsbD_and, Bool.and_eq_true] at hboth
    exact hboth.1
  · intro h
    apply ext_bits
    intro n
    simp only [BitVec.getLsbD_and, Bool.and_eq_true, hlog]
    exact and_iff_right_of_imp (h n)

theorem log_filter_exact (logs : List Log) :
    (∀ n, (ofLogs logs).getLsbD n = true ↔ ∃ log ∈ logs, Marks (Address.bytes log.address) n ∨
      ∃ topic ∈ log.topics, Marks (Word.bytes topic) n) ∧
    (∀ n < 2048, ∃ byte, (ofLogs logs).bytes[255 - n / 8]? = some byte ∧
      byte.toNat.testBit (n % 8) = (ofLogs logs).getLsbD n) ∧
    (∀ log ∈ logs, (ofLogs logs).contains log = true) ∧
    (∀ more, ofLogs (logs ++ more) = ofLogs logs ||| ofLogs more) ∧
    (∀ logs', (∀ x, x ∈ logs.map Log.emission ↔ x ∈ logs'.map Log.emission) →
      ofLogs logs = ofLogs logs') := by
  refine ⟨fun _ => getLsbD_ofLogs, fun _ => testBit_bytes _, ?_, ofLogs_append logs, ?_⟩
  · intro log hlog
    exact contains_iff.mpr fun n hn => getLsbD_ofLogs.mpr ⟨log, hlog, hn⟩
  · intro logs' hsame
    apply ext_bits
    intro n
    exact ⟨ofLogs_mono fun x => (hsame x).mp, ofLogs_mono fun x => (hsame x).mpr⟩

/-- Two logs, and the same two in another order, one of them with other data and again for
another transaction. The emitter of the first sets the bits 12, 166 and 2018. -/
theorem sample_log_filter :
    let a : Log := { address := 0x42, topics := [1] }
    let b : Log := { address := 7, topics := [2, 1] }
    (∃ byte, (ofLogs [a, b]).bytes[254]? = some byte ∧ byte.toNat.testBit 4 = true) ∧
      (ofLogs [a, b]).contains b = true ∧
      ofLogs [a, b] = ofLogs [{ b with data := [3] }, a, { b with txIndex := 4 }] := by
  intro a b
  obtain ⟨hbits, hbytes, hcontains, -, hcongr⟩ := log_filter_exact [a, b]
  refine ⟨?_, hcontains b (by simp), hcongr _ fun x => ?_⟩
  · obtain ⟨byte, hbyte, hbit⟩ := hbytes 12 (by decide)
    have hmarks : Marks (Address.bytes a.address) 12 := ⟨0, by decide, by decide +kernel⟩
    exact ⟨byte, hbyte, hbit.trans ((hbits 12).mpr ⟨a, by simp, .inl hmarks⟩)⟩
  · simp only [List.map_cons, List.map_nil, List.mem_cons, List.not_mem_nil, or_false,
      Log.emission]
    exact ⟨fun h => h.elim (fun ha => .inr (.inl ha)) .inl, fun h => h.elim .inr fun h => h⟩

end Bloom

theorem Engine.perform_bloom {ctx : BlockContext} {p : Proposal} {index : UInt32}
    {txHash blockHash : Hash} {r : Run} {receipt : Receipt}
    (h : (Step.exec (perform ctx p index txHash blockHash) r).1 = .ok receipt) :
    receipt.bloom = .ofLogs receipt.logs := by
  rw [exec_perform] at h
  cases h
  rfl

end StakeGov
