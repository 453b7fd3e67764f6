import Mathlib
import Tabulark.Csv.Growth
import Tabulark.Engine.Metadata

/-!
# The scan of a delimited table

A delimited table is scanned in chunks, and its metadata grows with every chunk:
`csvAdapter` is the adapter of such a table.
-/

namespace Tabulark.Engine.Metadata

/-- What the metadata of a delimited table says of the part that is scanned. -/
structure ScannedTable where
  rows : ℕ
  columns : List ColumnSchema
  schemaVersion : ℕ
  complete : Bool
  deriving DecidableEq

instance : PartialOrder ScannedTable where
  le t u := t.rows ≤ u.rows ∧ t.columns <+: u.columns ∧ t.schemaVersion ≤ u.schemaVersion ∧
    t.complete ≤ u.complete
  le_refl _ := ⟨le_rfl, List.prefix_rfl, le_rfl, le_rfl⟩
  le_trans _ _ _ h h' :=
    ⟨h.1.trans h'.1, h.2.1.trans h'.2.1, h.2.2.1.trans h'.2.2.1, h.2.2.2.trans h'.2.2.2⟩
  le_antisymm t u h h' := by
    obtain ⟨rows, columns, schemaVersion, complete⟩ := t
    obtain rfl : rows = u.rows := h.1.antisymm h'.1
    obtain rfl : columns = u.columns := h.2.1.eq_of_length_le h'.2.1.length_le
    obtain rfl : schemaVersion = u.schemaVersion := h.2.2.1.antisymm h'.2.2.1
    obtain rfl : complete = u.complete := h.2.2.2.antisymm h'.2.2.2
    rfl

open Csv CsvScanner

variable {o : DelimitedOptions} {reader : Csv.Reader o.delimiter} {c : CsvScanner reader}

/-- What a scanner has published. -/
def scannedTable (c : CsvScanner reader) : ScannedTable :=
  ⟨c.scan.index.rows, c.scan.index.columns, c.scan.index.schemaVersion, c.finished⟩

/-- The next chunk of a scan, which may be the last one. A scanner that refuses it stays. -/
def feedNext (c : CsvScanner reader) (chunk : List UInt8 × Bool) : CsvScanner reader :=
  match c.feedChunk c.bytesReceived chunk.1 chunk.2 with
  | .ok (c', _) => c'
  | .error _ => c

theorem scannedTable_feedNext (h : ∃ pre, FedBy reader pre c) (chunk : List UInt8 × Bool) :
    (∃ pre, FedBy reader pre (feedNext c chunk)) ∧
      scannedTable c ≤ scannedTable (feedNext c chunk) := by
  obtain ⟨pre, hfed⟩ := h
  rw [feedNext]
  cases hfeed : c.feedChunk c.bytesReceived chunk.1 chunk.2 with
  | error e => exact ⟨⟨pre, hfed⟩, le_rfl⟩
  | ok p =>
    obtain ⟨c', update⟩ := p
    have hgrows := (hfed.progress.feed hfeed).2
    refine ⟨⟨_, hfed.feed hfeed⟩, hgrows.rows, hgrows.columns, hgrows.version, ?_⟩
    rw [scannedTable, (feedChunk_eq_ok hfeed).1]
    exact Bool.false_le _

theorem fedBy_foldl (h : ∃ pre, FedBy reader pre c) (chunks : List (List UInt8 × Bool)) :
    ∃ pre, FedBy reader pre (chunks.foldl feedNext c) := by
  induction chunks generalizing c with
  | nil => exact h
  | cons chunk chunks ih => exact ih (scannedTable_feedNext h chunk).1

/-- What a scan has published after the first chunks. -/
def scanned (reader : Csv.Reader o.delimiter) (chunks : List (List UInt8 × Bool)) (n : ℕ) :
    ScannedTable :=
  scannedTable ((chunks.take n).foldl feedNext ({} : CsvScanner reader))

theorem monotone_scanned (reader : Csv.Reader o.delimiter) (hvalid : o.validate = .ok ())
    (chunks : List (List UInt8 × Bool)) : Monotone (scanned reader chunks) := by
  refine monotone_nat_of_le_succ fun n => ?_
  have hnew : CsvScanner.new reader = .ok {} := by
    rw [CsvScanner.new, hvalid]
    rfl
  rw [scanned, scanned, List.take_add_one, List.foldl_append]
  cases chunks[n]? with
  | none => exact le_rfl
  | some chunk => exact (scannedTable_feedNext (fedBy_foldl ⟨[], .new hnew⟩ _) chunk).2

/-- The adapter of a delimited table that is scanned in chunks. -/
def csvAdapter (reader : Csv.Reader o.delimiter) (hvalid : o.validate = .ok ())
    (chunks : List (List UInt8 × Bool)) (completes : ℕ → Bool) : ScanAdapter ScannedTable where
  metadata := scanned reader chunks
  revision _ := 0
  schemaVersion := ScannedTable.schemaVersion
  completes
  grows := monotone_scanned reader hvalid chunks
  revision_mono := monotone_const
  schemaVersion_mono _ _ h := h.2.2.1

end Tabulark.Engine.Metadata
