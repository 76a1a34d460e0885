import LunaBridge.Foundation.JsonNesting
import LunaBridge.Gateway.TelemetryFiles

/-!
# TornWrites — writers that are stopped in the middle of a line

A write may leave only the first characters of its line in the file, and later writes go on behind
them.  The records are then read back exactly if no torn line stays open or is written on
(`torn_writes`): a write that left nothing does no harm, nor does one that lacks only its newline at
the end of the file, and every other one makes the whole file unreadable, for good.
-/

namespace LunaBridge
namespace Gateway

open Foundation Foundation.Python Foundation.Text
open Foundation.Json (Nesting nest nest_append nest_cons nest_dead)
open Foundation.Bytes (ok_bind)

/-- A call of `write_bundle` of which the first `kept` characters reach the file. -/
structure BundleWrite where
  record : BundleRecord
  kept : ℕ

namespace BundleWrite

/-- What reaches the file. -/
def text (w : BundleWrite) : Text := (jsonLine w.record.toDict).take w.kept

/-- The characters of the object, without the newline behind it. -/
def size (w : BundleWrite) : ℕ := w.record.toDict.dumps.length

end BundleWrite

/-- The file after some writes. -/
def fileText (ws : List BundleWrite) : Text := ws.flatMap BundleWrite.text

/-- Every write has left nothing, or its whole line; the last one that left anything may lack its
newline. -/
def Harmless : List BundleWrite → Prop
  | [] => True
  | w :: ws =>
      (w.kept = 0 ∨ w.size < w.kept) ∧ Harmless ws ∨ w.kept = w.size ∧ fileText ws = []

/-- The records whose objects are complete. -/
def written (ws : List BundleWrite) : List BundleRecord :=
  (ws.filter fun w => decide (w.size ≤ w.kept)).map BundleWrite.record

/-! ## The text of a record -/

/-- The first key in the order of keys. -/
theorem dumps_toDict (r : BundleRecord) : ∃ t, r.toDict.dumps = '{' :: '"' :: 'b' :: t := by
  have hkeys : (StableSort.sortBy Prod.fst r.items).map Prod.fst =
      StableSort.sortBy id bundleFields := by
    have hmap : StableSort.sortBy id (r.items.map Prod.fst) =
        (StableSort.sortBy Prod.fst r.items).map Prod.fst :=
      StableSort.sortBy_map (fun _ => rfl) r.items
    rw [← hmap, r.map_fst_items]
  have hfirst : (StableSort.sortBy id bundleFields).head? = some "bundle_id".toList := by
    decide +kernel
  have hquoted : ∃ t, Json.quoted "bundle_id".toList = '"' :: 'b' :: t :=
    ⟨(Json.quoted "bundle_id".toList).drop 2, by decide +kernel⟩
  cases hsorted : StableSort.sortBy Prod.fst r.items with
  | nil =>
      rw [hsorted, List.map_nil] at hkeys
      rw [← hkeys] at hfirst
      cases hfirst
  | cons e es =>
      rw [hsorted, List.map_cons] at hkeys
      rw [← hkeys] at hfirst
      have hkey : e.1 = "bundle_id".toList := Option.some.inj hfirst
      obtain ⟨t, ht⟩ := hquoted
      obtain ⟨u, hu⟩ := Json.exists_intercalate_cons [',', ' '] (Json.printItem e)
        (es.map Json.printItem)
      refine ⟨t ++ (':' :: ' ' :: e.2.print ++ u ++ ['}']), ?_⟩
      rw [Json.dumps, r.sorted_toDict, hsorted, Json.print, Json.printItems_eq, List.map_cons, hu,
        Json.printItem, hkey, ht]
      simp

theorem dumps_isPrintable {r : BundleRecord} (h : r.Storable) :
    ∀ c ∈ r.toDict.dumps, Json.isPrintable c = true :=
  (r.valid_toDict h).sorted.isPrintable

/-- An object, or a part of one, behind a line that is still open leaves it open or spoils it. -/
theorem nest_record {r : BundleRecord} (h : r.Storable) {p x : Text}
    (hsplit : r.toDict.dumps = p ++ x) {σ : Nesting} (hσ : σ.Open 0 ∨ σ = .dead) :
    (nest σ p).Open 0 ∨ nest σ p = .dead := by
  obtain ⟨t, ht⟩ := dumps_toDict r
  have hvalid := (r.valid_toDict h).sorted
  rw [Json.dumps, r.sorted_toDict] at ht hsplit
  rw [r.sorted_toDict] at hvalid
  exact Json.nest_glued hvalid ht (fun _ => rfl) hsplit hσ

/-- So does a part of an object that is the first thing on its line. -/
theorem nest_torn {r : BundleRecord} (h : r.Storable) {p x : Text}
    (hsplit : r.toDict.dumps = p ++ x) (hp : p ≠ []) (hx : x ≠ []) :
    (nest .before p).Open 0 := by
  have hvalid := (r.valid_toDict h).sorted
  rw [Json.dumps, r.sorted_toDict] at hsplit
  rw [r.sorted_toDict] at hvalid
  exact Json.nest_proper_prefix hvalid hsplit hp hx

theorem nest_dumps {r : BundleRecord} (h : r.Storable) : nest .before r.toDict.dumps = .done := by
  obtain ⟨t, ht⟩ := dumps_toDict r
  exact Json.nest_of_loads (by rw [ht]; rfl) (Json.loads_dumps (r.valid_toDict h))

/-! ## What a write leaves -/

namespace BundleWrite

theorem size_pos (w : BundleWrite) : 0 < w.size := by
  obtain ⟨t, ht⟩ := dumps_toDict w.record
  rw [size, ht]
  exact Nat.succ_pos _

/-- The newline is the last character. -/
theorem text_of_le {w : BundleWrite} (h : w.kept ≤ w.size) :
    w.text = w.record.toDict.dumps.take w.kept := by
  rw [text, jsonLine, List.take_append_of_le_length h]

theorem text_of_lt {w : BundleWrite} (h : w.size < w.kept) :
    w.text = w.record.toDict.dumps ++ ['\n'] := by
  rw [text, jsonLine, List.take_of_length_le]
  rw [List.length_append, List.length_singleton]
  exact h

theorem text_of_eq {w : BundleWrite} (h : w.kept = w.size) : w.text = w.record.toDict.dumps := by
  rw [text_of_le h.le, h, size, List.take_length]

theorem text_of_zero {w : BundleWrite} (h : w.kept = 0) : w.text = [] := by
  rw [text, h, List.take_zero]

/-- What is not nothing begins with the brace. -/
theorem text_eq_nil_or (w : BundleWrite) : w.text = [] ∨ w.text.head? = some '{' := by
  obtain ⟨t, ht⟩ := dumps_toDict w.record
  cases hkept : w.kept with
  | zero => exact Or.inl (text_of_zero hkept)
  | succ k =>
      refine Or.inr ?_
      rw [text, jsonLine, ht, hkept]
      rfl

end BundleWrite

/-! ## The first line of a file -/

/-- The text up to the first newline. -/
def firstLine (s : Text) : Text := s.takeWhile fun c => decide (c ≠ '\n')

theorem firstLine_append {s : Text} (hs : Unbroken s) (t : Text) :
    firstLine (s ++ t) = s ++ firstLine t :=
  List.takeWhile_append_of_pos fun c hc => by simpa using (hs c hc).1

theorem firstLine_newline {s : Text} (hs : Unbroken s) (t : Text) :
    firstLine (s ++ '\n' :: t) = s := by
  rw [firstLine_append hs]
  exact List.append_nil s

/-- What follows an open line on the same line does not close it. -/
theorem nest_firstLine {ws : List BundleWrite} (h : ∀ w ∈ ws, w.record.Storable) {σ : Nesting}
    (hσ : σ.Open 0 ∨ σ = .dead) :
    (nest σ (firstLine (fileText ws))).Open 0 ∨ nest σ (firstLine (fileText ws)) = .dead := by
  induction ws generalizing σ with
  | nil => exact hσ
  | cons w ws ih =>
      obtain ⟨hw, hrest⟩ := List.forall_mem_cons.1 h
      have hunbroken := unbroken_of_isPrintable (dumps_isPrintable hw)
      rw [fileText, List.flatMap_cons, ← fileText]
      rcases Nat.lt_or_ge w.size w.kept with hwhole | htorn
      · -- the line ends here
        rw [w.text_of_lt hwhole, List.append_assoc, List.singleton_append,
          firstLine_newline hunbroken]
        exact nest_record hw (List.append_nil _).symm hσ
      · have htake : Unbroken (w.record.toDict.dumps.take w.kept) :=
          fun c hc => hunbroken c (List.mem_of_mem_take hc)
        rw [w.text_of_le htorn, firstLine_append htake, nest_append]
        exact ih hrest (nest_record hw (List.take_append_drop w.kept _).symm hσ)

theorem head?_fileText (ws : List BundleWrite) :
    fileText ws = [] ∨ (fileText ws).head? = some '{' := by
  induction ws with
  | nil => exact Or.inl rfl
  | cons w ws ih =>
      rw [fileText, List.flatMap_cons, ← fileText]
      rcases w.text_eq_nil_or with hnil | hhead
      · rwa [hnil, List.nil_append]
      · obtain ⟨cs, hcs⟩ := List.head?_eq_some_iff.1 hhead
        rw [hcs]
        exact Or.inr rfl

/-- Anything behind a complete object on the same line is too much. -/
theorem nest_done_firstLine {ws : List BundleWrite} (hne : fileText ws ≠ []) :
    nest .done (firstLine (fileText ws)) = .dead := by
  obtain ⟨cs, hcs⟩ := List.head?_eq_some_iff.1 ((head?_fileText ws).resolve_left hne)
  rw [hcs]
  exact nest_dead _

/-! ## Lines that cannot be read -/

/-- The first line of a file that begins with a brace is read first. -/
theorem strippedLines_cons {s : Text} (hhead : s.head? = some '{') (hreturn : '\r' ∉ s) :
    ∃ ls, strippedLines s = strip (firstLine s) :: ls := by
  obtain ⟨cs, hcs⟩ := List.head?_eq_some_iff.1 hhead
  have hunbroken : Unbroken (firstLine s) := by
    intro c hc
    refine ⟨by simpa using List.mem_takeWhile_imp hc, ?_⟩
    rintro rfl
    exact hreturn ((List.takeWhile_prefix _).subset hc)
  have hne : strip (firstLine s) ≠ [] := by
    rw [hcs, strip]
    have hfront : (firstLine ('{' :: cs)).dropWhile isSpace = firstLine ('{' :: cs) := rfl
    rw [hfront, ne_eq, List.rdropWhile_eq_nil_iff]
    intro hall
    exact absurd (hall '{' List.mem_cons_self) (by decide)
  have hlines : ∃ ls, fileLines s = firstLine s :: ls := by
    have hsplit : s = firstLine s ++ s.dropWhile fun c => decide (c ≠ '\n') :=
      List.takeWhile_append_dropWhile.symm
    cases hdrop : s.dropWhile fun c => decide (c ≠ '\n') with
    | nil =>
        rw [hdrop, List.append_nil] at hsplit
        refine ⟨[], ?_⟩
        rw [← hsplit] at hunbroken ⊢
        exact fileLines_of_unbroken hunbroken
    | cons c t =>
        have hc : c = '\n' := by
          have hfirst := List.head?_dropWhile_not (fun c => decide (c ≠ '\n')) s
          rw [hdrop] at hfirst
          simpa using hfirst
        rw [hdrop, hc] at hsplit
        refine ⟨fileLines t, ?_⟩
        nth_rewrite 1 [hsplit]
        exact fileLines_append hunbroken t
  obtain ⟨ls, hls⟩ := hlines
  refine ⟨(ls.map strip).filter fun line => decide (line ≠ []), ?_⟩
  rw [strippedLines, hls, List.map_cons, List.filter_cons_of_pos (by simpa using hne)]

/-- The only printable blank. -/
theorem isJsonSpace_of_isSpace {c : Char} (hspace : isSpace c = true)
    (hprint : Json.isPrintable c = true) : Json.isJsonSpace c = true := by
  have hlow : (32 : UInt32).toNat ≤ c.val.toNat :=
    UInt32.le_iff_toNat_le.1 (of_decide_eq_true hprint).1
  have hhigh : c.val.toNat ≤ (126 : UInt32).toNat :=
    UInt32.le_iff_toNat_le.1 (of_decide_eq_true hprint).2
  have hvalue : c.toNat = 32 := by
    have hspace := of_decide_eq_true hspace
    simp only [List.mem_cons, List.not_mem_nil, or_false] at hspace
    have hlow' : 32 ≤ c.toNat := hlow
    have hhigh' : c.toNat ≤ 126 := hhigh
    omega
  have hc : c = ' ' := Char.ext (UInt32.toNat_inj.1 hvalue)
  rw [hc]
  rfl

/-- A line whose brackets are not closed is not read. -/
theorem readLine_error {l : Text} (hhead : l.head? = some '{')
    (hprint : ∀ c ∈ l, Json.isPrintable c = true) (hnest : nest .before l ≠ .done) :
    ∃ e, readLine (strip l) = .error e := by
  obtain ⟨cs, rfl⟩ := List.head?_eq_some_iff.1 hhead
  have hstrip : strip ('{' :: cs) = ('{' :: cs).rdropWhile isSpace := rfl
  have hsplit : ('{' :: cs).rdropWhile isSpace ++ ('{' :: cs).rtakeWhile isSpace = '{' :: cs :=
    List.rdropWhile_append_rtakeWhile
  have hfront : (strip ('{' :: cs)).head? = some '{' := by
    have hne : strip ('{' :: cs) ≠ [] := by
      rw [hstrip, ne_eq, List.rdropWhile_eq_nil_iff]
      intro hall
      exact absurd (hall '{' List.mem_cons_self) (by decide)
    obtain ⟨a, as, has⟩ := List.exists_cons_of_ne_nil hne
    rw [← hstrip, has] at hsplit
    rw [has, ← (List.cons.inj hsplit).1]
    rfl
  cases hload : Json.loads (strip ('{' :: cs)) with
  | error e => exact ⟨.raised e, by rw [readLine, hload]⟩
  | ok v =>
      refine absurd ?_ hnest
      rw [← hsplit, nest_append, ← hstrip, Json.nest_of_loads hfront hload]
      refine Json.nest_done_of_blank fun c hc => ?_
      refine isJsonSpace_of_isSpace (List.mem_rtakeWhile_imp hc) (hprint c ?_)
      rw [← hsplit]
      exact List.mem_append_right _ hc

theorem mapM_cons_error {α β ε : Type} {f : α → Except ε β} {a : α} {as : List α}
    (h : (∃ e, f a = .error e) ∨ ∃ e, as.mapM f = .error e) :
    ∃ e, (a :: as).mapM f = .error e := by
  rw [List.mapM_cons]
  rcases h with ⟨e, he⟩ | ⟨e, he⟩
  · exact ⟨e, by rw [he]; rfl⟩
  · rw [he]
    cases f a with
    | ok b => exact ⟨e, rfl⟩
    | error e' => exact ⟨e', rfl⟩

/-! ## Reading a file with torn lines -/

theorem fileText_isPrintable {ws : List BundleWrite} (h : ∀ w ∈ ws, w.record.Storable) :
    ∀ c ∈ fileText ws, Json.isPrintable c = true ∨ c = '\n' := by
  intro c hc
  obtain ⟨w, hw, hmem⟩ := List.mem_flatMap.1 hc
  have hline : c ∈ jsonLine w.record.toDict := List.mem_of_mem_take hmem
  rcases List.mem_append.1 hline with hc | hc
  · exact Or.inl (dumps_isPrintable (h w hw) c hc)
  · exact Or.inr (List.mem_singleton.1 hc)

/-- A file whose first line is not closed is not read. -/
theorem readBundlesText_error {ws : List BundleWrite} (h : ∀ w ∈ ws, w.record.Storable)
    (hne : fileText ws ≠ []) (hnest : nest .before (firstLine (fileText ws)) ≠ .done) :
    ∃ e, readBundlesText (fileText ws) = .error e := by
  have hhead := (head?_fileText ws).resolve_left hne
  have hchars := fileText_isPrintable h
  have hreturn : '\r' ∉ fileText ws := fun hmem => by
    rcases hchars _ hmem with hprint | hnewline
    · cases hprint
    · cases hnewline
  obtain ⟨ls, hls⟩ := strippedLines_cons hhead hreturn
  have hfront : (firstLine (fileText ws)).head? = some '{' := by
    obtain ⟨cs, hcs⟩ := List.head?_eq_some_iff.1 hhead
    rw [hcs]
    rfl
  have hprint : ∀ c ∈ firstLine (fileText ws), Json.isPrintable c = true := by
    intro c hc
    have hnewline : c ≠ '\n' := by simpa using List.mem_takeWhile_imp hc
    exact (hchars c ((List.takeWhile_prefix _).subset hc)).resolve_right hnewline
  rw [readBundlesText, hls]
  exact mapM_cons_error (Or.inl (readLine_error hfront hprint hnest))

theorem written_of_fileText_nil {ws : List BundleWrite} (hnil : fileText ws = []) :
    written ws = [] := by
  rw [written, List.map_eq_nil_iff, List.filter_eq_nil_iff]
  intro w hw
  have htext : w.text = [] := List.flatMap_eq_nil_iff.1 hnil w hw
  have hline : jsonLine w.record.toDict ≠ [] := by simp [jsonLine]
  have hkept : w.kept = 0 := (List.take_eq_nil_iff.1 htext).resolve_right hline
  have hsize := w.size_pos
  simp only [decide_eq_true_eq]
  omega

/-- A record on a line of its own is read, and then the rest. -/
theorem readBundlesText_cons {r : BundleRecord} (h : r.Storable) (t : Text) :
    readBundlesText (r.toDict.dumps ++ '\n' :: t) =
      (readBundlesText t).map (LoadedRecord.of r :: ·) := by
  have hline := h.validObj.line
  rw [readBundlesText, strippedLines_append hline.1 hline.2, List.mapM_cons, readLine_dumps h,
    ok_bind, readBundlesText]
  cases (strippedLines t).mapM readLine <;> rfl

/-- Nothing is lost by writes that leave nothing or all of their line. -/
theorem readBundlesText_of_harmless {ws : List BundleWrite} (h : ∀ w ∈ ws, w.record.Storable)
    (hharmless : Harmless ws) :
    readBundlesText (fileText ws) = .ok ((written ws).map LoadedRecord.of) := by
  induction ws with
  | nil => rfl
  | cons w ws ih =>
      obtain ⟨hw, hrest⟩ := List.forall_mem_cons.1 h
      have hsize := w.size_pos
      rcases hharmless with ⟨hnone | hwhole, hharmless⟩ | ⟨hlast, hnil⟩
      · have hwritten : written (w :: ws) = written ws := by
          rw [written, List.filter_cons_of_neg (by simpa using by omega), ← written]
        rw [fileText, List.flatMap_cons, w.text_of_zero hnone, List.nil_append, hwritten]
        exact ih hrest hharmless
      · have hwritten : written (w :: ws) = w.record :: written ws := by
          rw [written, List.filter_cons_of_pos (by simpa using hwhole.le), List.map_cons, ← written]
        rw [fileText, List.flatMap_cons, ← fileText, w.text_of_lt hwhole, List.append_assoc,
          List.singleton_append, readBundlesText_cons hw, ih hrest hharmless, hwritten]
        rfl
      · -- the last object lacks its newline
        have hwritten : written (w :: ws) = [w.record] := by
          rw [written, List.filter_cons_of_pos (by simpa using hlast.ge), List.map_cons, ← written,
            written_of_fileText_nil hnil]
        have hline := hw.validObj.line
        rw [fileText, List.flatMap_cons, ← fileText, hnil, List.append_nil, w.text_of_eq hlast,
          readBundlesText, strippedLines_of_unbroken hline.1 hline.2, List.mapM_cons,
          readLine_dumps hw, ok_bind, hwritten]
        rfl

/-- Any other write makes the file unreadable. -/
theorem readBundlesText_of_not_harmless {ws : List BundleWrite}
    (h : ∀ w ∈ ws, w.record.Storable) (hharmless : ¬ Harmless ws) :
    ∃ e, readBundlesText (fileText ws) = .error e := by
  induction ws with
  | nil => exact absurd trivial hharmless
  | cons w ws ih =>
      obtain ⟨hw, hrest⟩ := List.forall_mem_cons.1 h
      have hsize := w.size_pos
      have hcases : w.kept = 0 ∨ w.size < w.kept ∨ 0 < w.kept ∧ w.kept ≤ w.size := by omega
      rcases hcases with hnone | hwhole | ⟨hpos, hle⟩
      · have hfile : fileText (w :: ws) = fileText ws := by
          rw [fileText, List.flatMap_cons, w.text_of_zero hnone, List.nil_append, ← fileText]
        rw [hfile]
        exact ih hrest fun hws => hharmless (Or.inl ⟨Or.inl hnone, hws⟩)
      · have hfile : fileText (w :: ws) = w.record.toDict.dumps ++ '\n' :: fileText ws := by
          rw [fileText, List.flatMap_cons, ← fileText, w.text_of_lt hwhole, List.append_assoc,
            List.singleton_append]
        obtain ⟨e, he⟩ := ih hrest fun hws => hharmless (Or.inl ⟨Or.inr hwhole, hws⟩)
        rw [hfile, readBundlesText_cons hw, he]
        exact ⟨e, rfl⟩
      · -- the line goes on behind the torn object, if there is anything behind it
        have hunbroken : Unbroken w.text := by
          rw [w.text_of_le hle]
          exact fun c hc => unbroken_of_isPrintable (dumps_isPrintable hw) c
            (List.mem_of_mem_take hc)
        have hsplit : w.record.toDict.dumps =
            w.text ++ w.record.toDict.dumps.drop w.kept := by
          rw [w.text_of_le hle, List.take_append_drop]
        have htext : w.text ≠ [] := by
          rw [w.text_of_le hle, ne_eq, List.take_eq_nil_iff, not_or]
          exact ⟨hpos.ne', List.ne_nil_of_length_pos hsize⟩
        have hfile : fileText (w :: ws) = w.text ++ fileText ws := by
          rw [fileText, List.flatMap_cons, ← fileText]
        refine readBundlesText_error h (by simp [hfile, htext]) ?_
        rw [hfile, firstLine_append hunbroken, nest_append]
        rcases Nat.lt_or_eq_of_le hle with hlt | heq
        · have hx : w.record.toDict.dumps.drop w.kept ≠ [] :=
            List.ne_nil_of_length_pos (by
              rw [List.length_drop]
              exact Nat.sub_pos_of_lt hlt)
          rcases nest_firstLine hrest (Or.inl (nest_torn hw hsplit htext hx)) with hopen | hdead
          · intro hdone
            rw [hdone] at hopen
            cases hopen
          · rw [hdead]
            exact nofun
        · have hne : fileText ws ≠ [] := fun hnil => hharmless (Or.inr ⟨heq, hnil⟩)
          rw [w.text_of_eq heq, nest_dumps hw, nest_done_firstLine hne]
          exact nofun

/-- Whichever writes are stopped, after however many characters of their lines, and whatever is
written behind them: `read_bundles` returns the records whose objects are complete, in their order,
if no write has left a part of its line, the last newline apart, and raises an exception
otherwise. -/
theorem torn_writes (ws : List BundleWrite) (h : ∀ w ∈ ws, w.record.Storable) :
    (Harmless ws → readBundlesText (fileText ws) = .ok ((written ws).map LoadedRecord.of)) ∧
      (¬ Harmless ws → ∃ e, readBundlesText (fileText ws) = .error e) :=
  ⟨readBundlesText_of_harmless h, readBundlesText_of_not_harmless h⟩

/-- The second of three writes is stopped after two characters. -/
def Small.tornRun : List BundleWrite :=
  [⟨Small.captured, 400⟩, ⟨Small.captured, 2⟩, ⟨Small.captured, 400⟩]

theorem Small.tornRun_storable : ∀ w ∈ Small.tornRun, w.record.Storable := by
  intro w hw
  simp only [Small.tornRun, List.mem_cons, List.not_mem_nil, or_false] at hw
  rcases hw with rfl | rfl | rfl <;> exact Small.captured_storable

/-- None of the three records is read back then. -/
theorem torn_writes_small : ∃ e, readBundlesText (fileText Small.tornRun) = .error e := by
  refine (torn_writes Small.tornRun Small.tornRun_storable).2 ?_
  have hsize : ∀ kept, BundleWrite.size ⟨Small.captured, kept⟩ = 294 := by
    intro kept
    have hlength : Small.captured.toDict.dumps.length = 294 := by decide +kernel
    exact hlength
  simp [Small.tornRun, Harmless, hsize]

end Gateway
end LunaBridge
