/-
Vectorizers that are saved and loaded again. Wherever a vectorizer comes from, its settings and
weights are found again in its files; its terms are if each of them is a line. The terms of a fitted
vectorizer are. But nothing keeps line feeds and carriage returns out of terms that are given or
loaded: with a line feed in one of them what was saved cannot be loaded, and with a carriage return
at the end of one it is loaded with other terms (`returning_changes`).
-/
import Triage.Proofs.Bundle.Reading
import Triage.Proofs.Json.Words
import Triage.Proofs.Storage.Siblings

namespace Triage

open Storage (Path Tree FileIn SingleName)

/-! ## Settings that are read -/

namespace VectorizerRecord

open Json

theorem reads_range : Reads (fun r => r.least < UInt64.size ∧ r.most < UInt64.size)
    Settings.readRange := by
  intro ts r rest hw h
  unfold Settings.readRange at h
  split at h
  · rename_i least most more
    split at h
    · rename_i range hrange
      cases h
      unfold Text.NGramRange.of at hrange
      split at hrange
      · cases hrange
        exact ⟨⟨hw _ (by simp), hw _ (by simp)⟩, hw.tail.tail.tail.tail.tail⟩
      · cases hrange
    · cases h
  · cases h

/-- The numbers in a record that is read have at most 64 bits. -/
theorem fits_of_ofText {text : String} {r : VectorizerRecord} (h : ofText text = .ok r) :
    r.Fits := by
  refine of_readAll (reads_complete ?_ ?_) h
  · intro f hf s hs
    simp only [fields, List.mem_cons, List.not_mem_nil, or_false] at hf
    rcases hf with rfl | rfl | rfl
    · exact reads_field reads_natural (fun n s hn hs => { hs with maxFeatures := hn }) hs
    · exact reads_field reads_range
        (fun range s hr hs => { hs with least := hr.1, most := hr.2 }) hs
    · exact reads_field reads_natural (fun n s hn hs => { hs with size := hn }) hs
  · constructor <;> decide

end VectorizerRecord

/-! ## Paths -/

namespace VectorizerFile

/-- What the name of a file ends in. -/
def ending : VectorizerFile → String
  | .vocabulary => "_vocabulary.txt"
  | .weights => "_idf.txt"
  | .config => "_config.json"

theorem name_eq (start : String) (f : VectorizerFile) : f.name start = start ++ f.ending := by
  cases f <;> rfl

theorem ending_single (f : VectorizerFile) : SingleName f.ending := by
  cases f <;> constructor <;> decide

theorem ending_injective {f g : VectorizerFile} (h : f.ending = g.ending) : f = g := by
  cases f <;> cases g <;> first | rfl | exact absurd h (by decide)

theorem mem_all (f : VectorizerFile) : f ∈ all := by
  cases f <;> decide

/-- The files of a vectorizer are different files of one directory, also if their names start with
that of another. -/
theorem paths_apart (dir : Path) (start : String) : ∃ names,
    (∀ f : VectorizerFile, FileIn names (f.path dir start)) ∧
      (all.map fun f => (f.path dir start).names).Nodup := by
  obtain ⟨names, rest, h⟩ := Storage.child_append dir start
  have hpath (f : VectorizerFile) : (f.path dir start).names = names ++ [rest ++ f.ending] ∧
      (f.path dir start).closed = false := by
    unfold path
    rw [name_eq]
    exact h f.ending f.ending_single
  have hlong (f : VectorizerFile) (name : String) (hname : name.length ≤ 2) :
      rest ++ f.ending ≠ name := by
    rintro rfl
    have hending : 2 < f.ending.length := by cases f <;> decide
    rw [String.length_append] at hname
    omega
  refine ⟨names, ?_, ?_⟩
  · intro f
    exact ⟨(hpath f).2, _, (hpath f).1, hlong f "." (by decide), hlong f ".." (by decide)⟩
  · refine List.Nodup.map ?_ (by decide)
    intro f g e
    have hnames : names ++ [rest ++ f.ending] = names ++ [rest ++ g.ending] := by
      rw [← (hpath f).1, ← (hpath g).1]
      exact e
    have hname := List.singleton_inj.1 (List.append_cancel_left hnames)
    exact ending_injective ((String.append_right_inj rest).1 hname)

end VectorizerFile

namespace Vectorizer

variable {v : Vectorizer} {dir : Path} {start : String} {t u : Tree}

/-! ## Where vectorizers come from -/

/-- The vectorizers there are: those that were fitted to documents, those that were made of terms
and weights, and those that were loaded from files. -/
inductive Produced : Vectorizer → Prop where
  | fitted {settings : VectorizerSettings} {documents : List String} {v : Vectorizer}
      (words : settings.InWords) (fit : checkedFit settings documents = .ok v) : Produced v
  | assembled {settings : VectorizerSettings} {terms : Array String} {weights : Array Float}
      {v : Vectorizer} (words : settings.InWords) (parts : ofParts settings terms weights = .ok v) :
      Produced v
  | loaded {dir : Path} {start : String} {t : Tree} {v : Vectorizer}
      (load : (load (m := StateM Tree) dir start t).1 = .ok v) : Produced v

/-- A vectorizer is loaded from the files as they are, which are not changed. -/
theorem load_eq (dir : Path) (start : String) (u : Tree) :
    ∃ found : Found, (∀ f : VectorizerFile, found f = u.read (f.path dir start)) ∧
      load (m := StateM Tree) dir start u = (ofFound dir start found, u) := by
  refine ⟨_, ?_, rfl⟩
  rintro (_ | _ | _) <;> rfl

/-- What a vectorizer was made of, with as many lines as the record says. -/
theorem made_of_ofLines {r : VectorizerRecord} {terms : List String} {weights : List Float}
    (h : ofLines r terms weights = .ok v) :
    v.settings = r.settings ∧ v.terms = terms.toArray ∧ v.Made := by
  unfold ofLines at h
  split at h
  · cases h
  · obtain ⟨hsettings, hterms, -, hmade⟩ := made_of_ofParts h
    exact ⟨hsettings, hterms, hmade⟩

/-- A vectorizer that is loaded was made of the parts in the files. -/
theorem made_of_ofFound {found : Found} (h : ofFound dir start found = .ok v) :
    v.Made ∧ v.settings.InWords := by
  obtain ⟨text, -, h⟩ := ok_of_bind h
  obtain ⟨record, hrecord, h⟩ := ok_of_bind h
  obtain ⟨terms, -, h⟩ := ok_of_bind h
  obtain ⟨weightTexts, -, h⟩ := ok_of_bind h
  obtain ⟨weights, -, h⟩ := ok_of_bind h
  obtain ⟨hsettings, -, hmade⟩ := made_of_ofLines (ok_of_mapError h)
  have hfits := VectorizerRecord.fits_of_ofText (ok_of_mapError hrecord)
  rw [hsettings]
  exact ⟨hmade, hfits.maxFeatures, hfits.least, hfits.most⟩

theorem Produced.made (h : v.Produced) : v.Made ∧ v.settings.InWords := by
  cases h with
  | fitted words fit =>
    obtain ⟨hsettings, hmade, -⟩ := fit_spec fit
    exact ⟨hmade, hsettings ▸ words⟩
  | assembled words parts =>
    obtain ⟨hsettings, -, -, hmade⟩ := made_of_ofParts parts
    exact ⟨hmade, hsettings ▸ words⟩
  | loaded load =>
    obtain ⟨found, -, hload⟩ := load_eq _ _ _
    rw [hload] at load
    exact made_of_ofFound load

/-! ## Saving -/

/-- The files of a vectorizer that was saved hold what they should. -/
theorem read_of_save {record : VectorizerRecord}
    (h : save (m := StateM Tree) v dir start t = (.ok record, u)) :
    record = .of v ∧ ∀ f : VectorizerFile,
      u.read (f.path dir start) = .ok (Storage.bytesOf (v.fileText f)) := by
  obtain ⟨names, hin, hapart⟩ := VectorizerFile.paths_apart dir start
  cases hwrite : Storage.writeAll (m := StateM Tree) (VectorizerFile.all.map fun f =>
      (f.path dir start, Storage.bytesOf (v.fileText f))) t with
  | mk result w =>
    have hsave : save (m := StateM Tree) v dir start t =
        ((result.map fun () => VectorizerRecord.of v).mapError .file, w) := by
      simp only [save, bind, StateT.bind, hwrite]
      rfl
    rw [hsave] at h
    cases result with
    | error fault => cases h
    | ok _ =>
      cases h
      refine ⟨rfl, ?_⟩
      intro f
      have hall : ∀ file ∈ VectorizerFile.all.map fun f : VectorizerFile =>
          (f.path dir start, Storage.bytesOf (v.fileText f)), FileIn names file.1 := by
        intro file hfile
        obtain ⟨g, -, rfl⟩ := List.mem_map.1 hfile
        exact hin g
      refine Storage.read_of_writeAll hall ?_ hwrite (f.path dir start, _) ?_
      · rw [List.map_map]
        exact hapart
      · exact List.mem_map_of_mem f.mem_all

/-! ## Loading what was saved -/

/-- More lines than terms were saved are refused. -/
theorem ofLines_of_feed (hmade : v.Made) {terms : List String} (h : v.size < terms.length) :
    ofLines (.of v) terms v.weights.toList =
      .error (.declaredSize v.size terms.length v.size) := by
  have hweights : v.weights.toList.length = v.size := by
    rw [Array.length_toList, size, hmade.size]
  unfold ofLines
  rw [if_pos (.inl (Nat.ne_of_gt h)), hweights]
  rfl

/-- A vectorizer that was saved is loaded unchanged just if its terms are lines, as they are if it
was fitted. If there is a line feed in one of them, more lines are found than terms were saved, and
it is not loaded; otherwise what is loaded is made of the terms without the carriage returns at
their ends. -/
theorem load_saved (hv : v.Produced) {record : VectorizerRecord}
    (hsave : save (m := StateM Tree) v dir start t = (.ok record, u)) :
    record = .of v ∧
    (load (m := StateM Tree) dir start u).2 = u ∧
    ((load (m := StateM Tree) dir start u).1 = .ok v ↔
      ∀ term ∈ v.terms, Text.IsLine term.toList) ∧
    (∀ settings documents, checkedFit settings documents = .ok v →
      (load (m := StateM Tree) dir start u).1 = .ok v) ∧
    ((∃ term ∈ v.terms, '\n' ∈ term.toList) → ∃ lines, v.size < lines ∧
      (load (m := StateM Tree) dir start u).1 =
        .error (.corrupt (.declaredSize v.size lines v.size))) ∧
    ((∀ term ∈ v.terms, '\n' ∉ term.toList) →
      (load (m := StateM Tree) dir start u).1 =
        (ofParts v.settings (v.terms.map fun term => String.ofList (Text.asRead term.toList))
          v.weights).mapError .corrupt) := by
  obtain ⟨hmade, hwords⟩ := hv.made
  obtain ⟨hrecord, hread⟩ := read_of_save hsave
  obtain ⟨found, hfound, hload⟩ := load_eq dir start u
  have hfiles : ∀ f, found f = .ok (Storage.bytesOf (v.fileText f)) :=
    fun f => (hfound f).trans (hread f)
  have hback : (∀ term ∈ v.terms, Text.IsLine term.toList) → ofFound dir start found = .ok v :=
    fun hlines => ofFound_fileText hmade hwords hlines dir start hfiles
  have hlines := ofFound_lines hmade hwords dir start hfiles
  rw [hload]
  refine ⟨hrecord, rfl, ⟨?_, hback⟩, ?_, ?_, ?_⟩
  · intro h
    rw [hlines] at h
    obtain ⟨-, hterms, -⟩ := made_of_ofLines (ok_of_mapError h)
    have hself : v.terms.toList = Text.lines (Text.unlines v.terms.toList) :=
      congrArg Array.toList hterms
    intro term hterm
    exact Text.lines_unlines_iff.1 hself.symm term (Array.mem_toList_iff.2 hterm)
  · intro settings documents hfit
    exact hback (isLine_of_fit hfit)
  · rintro ⟨term, hterm, hfeed⟩
    have hmore := Text.length_lt_of_feed ⟨term, Array.mem_toList_iff.2 hterm, hfeed⟩
    rw [Array.length_toList] at hmore
    refine ⟨_, hmore, ?_⟩
    rw [hlines, ofLines_of_feed hmade hmore]
    rfl
  · intro hfeed
    rw [hlines, Text.lines_of_noFeed fun s hs => hfeed s (Array.mem_toList_iff.1 hs),
      ofLines_of_length hmade (by rw [List.length_map, Array.length_toList, size]),
      ← Array.toList_map, Array.toArray_toList]

/-- A vectorizer with two terms. -/
def twoTerms : Vectorizer :=
  ⟨⟨8000, .upToThree⟩, #["gratis", "vx 8"], #[1, 1.5],
    ((∅ : Std.TreeMap String Nat).insert "gratis" 0).insert "vx 8" 1⟩

theorem load_saved_twoTerms : ∃ u, Produced twoTerms ∧
    save (m := StateM Tree) twoTerms (Path.ofText ".") "ad" Tree.empty = (.ok (.of twoTerms), u) ∧
      (load (m := StateM Tree) (Path.ofText ".") "ad" u).1 = .ok twoTerms := by
  have hparts : ofParts twoTerms.settings twoTerms.terms twoTerms.weights = .ok twoTerms := rfl
  have hwords : twoTerms.settings.InWords := by constructor <;> decide
  have hproduced : Produced twoTerms := .assembled hwords hparts
  have hrecord : (save (m := StateM Tree) twoTerms (Path.ofText ".") "ad" Tree.empty).1 =
      .ok (.of twoTerms) := by decide +kernel
  have hlines : ∀ term ∈ twoTerms.terms, Text.IsLine term.toList := by
    intro term hterm
    have hmem : term = "gratis" ∨ term = "vx 8" := by simpa [twoTerms] using hterm
    rcases hmem with rfl | rfl <;> constructor <;> decide
  have hsave := Prod.ext hrecord rfl
  obtain ⟨-, -, hload, -⟩ := load_saved hproduced hsave
  exact ⟨_, hproduced, hsave, hload.2 hlines⟩

/-- A vectorizer with a term that ends in a carriage return. -/
def returning : Vectorizer :=
  ⟨⟨8000, .upToThree⟩, #["a\r"], #[1], (∅ : Std.TreeMap String Nat).insert "a\r" 0⟩

/-- It is made of its parts and saved, and then loaded with another term. -/
theorem returning_changes : ∃ u w,
    ofParts ⟨8000, .upToThree⟩ #["a\r"] #[1] = .ok returning ∧
      save (m := StateM Tree) returning (Path.ofText ".") "ad" Tree.empty =
        (.ok (.of returning), u) ∧
      (load (m := StateM Tree) (Path.ofText ".") "ad" u).1 = .ok w ∧
      w.terms = #["a"] ∧ w.terms ≠ returning.terms := by
  have hrecord : (save (m := StateM Tree) returning (Path.ofText ".") "ad" Tree.empty).1 =
      .ok (.of returning) := by decide +kernel
  have hterms : ((load (m := StateM Tree) (Path.ofText ".") "ad"
      (save (m := StateM Tree) returning (Path.ofText ".") "ad" Tree.empty).2).1.map
        Vectorizer.terms).toOption = some #["a"] := by decide +kernel
  cases hload : (load (m := StateM Tree) (Path.ofText ".") "ad"
      (save (m := StateM Tree) returning (Path.ofText ".") "ad" Tree.empty).2).1 with
  | error fault =>
    rw [hload] at hterms
    cases hterms
  | ok w =>
    rw [hload] at hterms
    have hw : w.terms = #["a"] := Option.some.inj hterms
    refine ⟨_, w, rfl, Prod.ext hrecord rfl, hload, hw, ?_⟩
    rw [hw]
    decide

end Vectorizer

end Triage
