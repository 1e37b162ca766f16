import ColumnSampling.Decimal
import ColumnSampling.Metrics.Counters

/-!
# Metrics report

A histogram sorts durations into buckets, each bounded above and the last one unbounded, and adds
them up in the order in which they come. The report has the counters and two histograms, of the time
that verification and reconstruction take: for each metric a line of help, its type and its values.
-/

namespace ColumnSampling

/-- Durations in seconds, sorted by size. -/
structure Histogram where
  /-- The upper bounds, ascending; a bound belongs to its bucket. -/
  bounds : List Float
  /-- How many durations fell below or on each bound, and above all others. -/
  counts : List Nat
  sum : Float := 0
deriving Inhabited

namespace Histogram

/-- An empty histogram with ten buckets, each twice as wide as the one before. -/
def doubling (first : Float) : Histogram :=
  let bounds := (List.range 10).map fun k => first * (Nat.pow 2 k).toFloat
  { bounds := bounds, counts := (bounds.map fun _ => 0) ++ [0] }

/-- A duration in seconds: whole seconds and the rest are added as floating-point numbers. -/
def seconds (nanos : Nat) : Float :=
  (nanos / 1000000000).toFloat + (nanos % 1000000000).toFloat / 1000000000

def observe (h : Histogram) (nanos : Nat) : Histogram :=
  let x := seconds nanos
  { h with
    counts := h.counts.modify (h.bounds.takeWhile (· < x)).length (· + 1)
    sum := h.sum + x }

def count (h : Histogram) : Nat := h.counts.foldl (· + ·) 0

def totals : (counts : List Nat) → (before : Nat) → List Nat
  | [], _ => []
  | n :: rest, before => (before + n) :: totals rest (before + n)

/-- The texts of the bounds; the last bucket has none. -/
def labels (h : Histogram) : List String :=
  h.bounds.map ({} : Decimal.Layout).float ++ ["+Inf"]

def lines (h : Histogram) (name : String) : List String :=
  [name ++ "_sum " ++ ({} : Decimal.Layout).float h.sum, name ++ "_count " ++ toString h.count] ++
    (h.labels.zip (totals h.counts 0)).map fun (label, total) =>
      name ++ "_bucket\x7ble=\"" ++ label ++ "\"\x7d " ++ toString total

end Histogram

structure Metrics where
  counters : Counters := {}
  verificationTime : Histogram := .doubling 0.001
  reconstructionTime : Histogram := .doubling 0.01
deriving Inhabited

namespace Metrics

def verifiedIn (m : Metrics) (nanos : Nat) : Metrics :=
  { m with verificationTime := m.verificationTime.observe nanos }

def reconstructedIn (m : Metrics) (nanos : Nat) (success : Bool) : Metrics :=
  { m with
    counters := m.counters.reconstructed success
    reconstructionTime := m.reconstructionTime.observe nanos }

inductive Kind where
  | counter
  | gauge
  | histogram (h : Histogram)

/-- The metrics in the order of the report, each with its help. -/
def entries (m : Metrics) : List (String × Kind × String) :=
  [("sidecars_built", .counter, "Data column sidecars built from local blobs"),
    ("blobs_per_block", .gauge, "Number of blobs in the last encoded block"),
    ("verifications_success", .counter, "Data column sidecars that passed verification"),
    ("verifications_failure", .counter, "Data column sidecars rejected by verification"),
    ("inclusion_proof_failures", .counter,
      "Sidecars whose commitments did not open the block body root"),
    ("verification_time", .histogram m.verificationTime,
      "Time taken to verify a batch of data column sidecars (seconds)"),
    ("reconstruction_attempts", .counter, "Column reconstructions started"),
    ("reconstruction_failures", .counter, "Column reconstructions that failed"),
    ("reconstruction_time", .histogram m.reconstructionTime,
      "Time taken to reconstruct all columns of a block (seconds)"),
    ("peer_info_cache_hits", .counter, "Peer custody lookups served from cache"),
    ("peer_info_cache_misses", .counter, "Peer custody lookups that had to be computed")]

def lines (m : Metrics) (name : String) (kind : Kind) (help : String) : List String :=
  let full := "peerdas_" ++ name
  let head (type : String) : List String :=
    ["# HELP " ++ full ++ " " ++ help ++ ".", "# TYPE " ++ full ++ " " ++ type]
  let value := toString ((m.counters.named.lookup name).getD 0)
  match kind with
  | .counter => head "counter" ++ [full ++ "_total " ++ value]
  | .gauge => head "gauge" ++ [full ++ " " ++ value]
  | .histogram h => head "histogram" ++ h.lines full

def report (m : Metrics) : List String :=
  (m.entries.flatMap fun (name, kind, help) => m.lines name kind help) ++ ["# EOF"]

end Metrics

end ColumnSampling
