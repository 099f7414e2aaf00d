import StakeGov.Engine.Run

/-!
# Metrics

What an operator sees of the engine: counters with labels, and for the duration
of lookups a histogram. One observation adds one to each of the series it
belongs to; a duration belongs to every bucket whose bound it does not exceed.

A registry finds a series by a digest of its label values run together. Values
that differ only in where one ends and the next begins are therefore one series,
and it is shown with the labels it was first reported with.
-/

namespace StakeGov

def PolicyKind.label : PolicyKind → String
  | .blacklist => "blacklist"
  | .rules => "rules"

def HitSource.label : HitSource → String
  | .entry => "entry"
  | .lookback => "lookback"

def punishmentLabel (ok : Bool) : String :=
  if ok then "ok" else "failed"

def Metric.text : Metric → String
  | .hit kind source => "hit " ++ kind.label ++ " " ++ source.label
  | .read kind => "read " ++ kind.label
  | .observed kind => "observe " ++ kind.label
  | .punished ok => "punish " ++ punishmentLabel ok

namespace Metrics

/-- The families of series, in the order of their names. -/
inductive Family where
  | blacklistSeconds
  | cacheHits
  | contractReads
  | rulesSeconds
  | punishments
deriving DecidableEq, Repr

namespace Family

def all : List Family :=
  [.blacklistSeconds, .cacheHits, .contractReads, .rulesSeconds, .punishments]

def name : Family → String
  | .blacklistSeconds => "npos_policy_blacklist_get_seconds"
  | .cacheHits => "npos_policy_cache_hits_total"
  | .contractReads => "npos_policy_contract_reads_total"
  | .rulesSeconds => "npos_policy_rules_get_seconds"
  | .punishments => "npos_punish_total"

def help : Family → String
  | .blacklistSeconds => "Latency of blacklist lookups, including contract reads on a miss."
  | .cacheHits => "Policy lookups served without a contract read."
  | .contractReads => "Policy lookups that read the address-policy contract."
  | .rulesSeconds => "Latency of event-rule lookups, including contract reads on a miss."
  | .punishments => "Punishment calls issued for validators that missed their turn."

def type : Family → String
  | .blacklistSeconds | .rulesSeconds => "histogram"
  | .cacheHits | .contractReads | .punishments => "counter"

def header (f : Family) : List String :=
  ["# HELP " ++ f.name ++ " " ++ f.help, "# TYPE " ++ f.name ++ " " ++ f.type]

def seconds : PolicyKind → Family
  | .blacklist => .blacklistSeconds
  | .rules => .rulesSeconds

end Family

-- ---------------------------------------------------------------------------
-- Series
-- ---------------------------------------------------------------------------

structure Series where
  family : Family
  suffix : String := ""
  labels : List (String × String) := []
deriving DecidableEq, Repr

/-- A backslash, a quote and a line's end are written with a backslash. -/
def escapeChar : Char → List Char
  | '\\' => ['\\', '\\']
  | '"' => ['\\', '"']
  | '\n' => ['\\', 'n']
  | c => [c]

def quoted (value : String) : String :=
  "\"" ++ String.ofList (value.toList.flatMap escapeChar) ++ "\""

def Series.text (s : Series) : String :=
  let labels := s.labels.map fun l => l.1 ++ "=" ++ quoted l.2
  let name := s.family.name ++ s.suffix
  if labels.isEmpty then name else name ++ "\x7b" ++ String.intercalate "," labels ++ "\x7d"

/-- A digest of 64 bits: each byte is put in by exclusive or, and the whole multiplied
by a prime. -/
def digest (bytes : List UInt8) : UInt64 :=
  bytes.foldl (fun h b => (h ^^^ b.toUInt64) * 0x100000001b3) 0xcbf29ce484222325

structure Key where
  family : Family
  suffix : String
  digest : UInt64
deriving DecidableEq, Repr

def Series.key (s : Series) : Key :=
  ⟨s.family, s.suffix, digest (s.labels.flatMap fun l => l.2.toUTF8.toList)⟩

/-- The digest does not see where one value ends and the next begins. -/
theorem Series.key_shift (family : Family) (suffix a b : String) {v w v' w' : String}
    (h : v.toUTF8.toList ++ w.toUTF8.toList = v'.toUTF8.toList ++ w'.toUTF8.toList) :
    Series.key ⟨family, suffix, [(a, v), (b, w)]⟩ =
      Series.key ⟨family, suffix, [(a, v'), (b, w')]⟩ := by
  simp only [Series.key, List.flatMap_cons, List.flatMap_nil, List.append_nil, h]

-- ---------------------------------------------------------------------------
-- Buckets
-- ---------------------------------------------------------------------------

def bucketCount : Nat := 16

/-- The bound of a bucket in units of ten microseconds; each is twice the one
before. -/
def bucketUnits (i : Nat) : Nat := 5 <<< i

def bucketBound (i : Nat) : Float := Float.ofScientific (bucketUnits i) true 5

def unitsText (units : Nat) : String :=
  let fraction := (Nat.toDigits 10 (units % 100000 + 100000)).drop 1
  let kept := (fraction.reverse.dropWhile (· = '0')).reverse
  toString (units / 100000) ++ "." ++ String.ofList kept

def bucketSeries (family : Family) (bound : String) : Series :=
  ⟨family, "_bucket", [("le", bound)]⟩

def durationSeries (family : Family) (seconds : Float) : List Series :=
  let bounded := (List.range bucketCount).filter fun i => seconds ≤ bucketBound i
  bounded.map (fun i => bucketSeries family (unitsText (bucketUnits i))) ++
    [bucketSeries family "+Inf", ⟨family, "_count", []⟩]

-- ---------------------------------------------------------------------------
-- Observations
-- ---------------------------------------------------------------------------

/-- What is reported. The labels of counters are free text. -/
inductive Observation where
  | duration (kind : PolicyKind) (seconds : Float)
  | hit (kind source : String)
  | read (kind : String)
  | punishment (outcome : String)

def Observation.series : Observation → List Series
  | .duration kind seconds => durationSeries (.seconds kind) seconds
  | .hit kind source => [⟨.cacheHits, "", [("kind", kind), ("source", source)]⟩]
  | .read kind => [⟨.contractReads, "", [("kind", kind)]⟩]
  | .punishment outcome => [⟨.punishments, "", [("outcome", outcome)]⟩]

-- ---------------------------------------------------------------------------
-- Registry
-- ---------------------------------------------------------------------------

/-- A series as it was first reported, and how often it was. -/
structure Entry where
  series : Series
  key : Key
  count : Nat
  key_eq : key = series.key

abbrev Registry := List Entry

namespace Registry

def count : Registry → Key → Nat
  | [], _ => 0
  | e :: rest, k => if e.key = k then e.count else count rest k

/-- Adds the count of an entry to the one with its key, or puts it last. -/
def merge (new : Entry) : Registry → Registry
  | [] => [new]
  | e :: rest =>
    if e.key = new.key then { e with count := e.count + new.count } :: rest
    else e :: merge new rest

def add (r : Registry) (s : Series) : Registry :=
  merge ⟨s, s.key, 1, rfl⟩ r

def observe (r : Registry) (o : Observation) : Registry :=
  o.series.foldl add r

theorem count_merge (new : Entry) (r : Registry) (k : Key) :
    count (merge new r) k = count r k + if new.key = k then new.count else 0 := by
  induction r with
  | nil => simp [merge, count]
  | cons e rest ih =>
    by_cases he : e.key = new.key
    · by_cases hk : new.key = k <;> simp [merge, count, he, hk]
    · by_cases hk : e.key = k
      · have hn : new.key ≠ k := fun h => he (hk.trans h.symm)
        rw [merge, if_neg he, count, count, if_pos hk, if_pos hk, if_neg hn, Nat.add_zero]
      · simp [merge, count, he, hk, ih]

/-- A report adds one to the series it is found by and nothing to the others. -/
theorem count_add (r : Registry) (s : Series) (k : Key) :
    count (r.add s) k = count r k + if s.key = k then 1 else 0 :=
  count_merge ..

end Registry

/-- How much each series grew from one registry to a later one. -/
def growth (before after : Registry) : List (Series × Nat) :=
  (after.map fun e => (e.series, e.count - before.count e.key)).filter fun e => e.2 ≠ 0

def introductions (grown : List (Series × Nat)) : List String :=
  (Family.all.filter fun f => grown.any fun e => e.1.family = f).flatMap Family.header

end Metrics

end StakeGov
