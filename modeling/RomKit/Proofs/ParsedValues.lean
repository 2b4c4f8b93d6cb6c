import RomKit.Command.Parsers
import RomKit.Proofs.Verdicts

/-!
# The values of a command line

The parsers of the tools keep to what is expected of a parser
(`AssembleTool.parser_documented`, `DisassembleTool.parser_documented`). They end
with 0 or 2, they look for the files to be read, and the texts of the values are
parts of words, so they hold nothing that a word cannot hold.
-/

namespace RomKit

/-! ## Values are parts of words -/

namespace CommandLine

variable {κ : Type} {specs : List (OptionSpec κ)}

/-- The texts that a word gives to the command line. -/
def Word.texts : Word κ → List RawText
  | .argument text => [text]
  | .separator => []
  | .options given | .needs given _ _ => given.map Prod.snd

/-- The texts on a command line. -/
def texts (line : CommandLine κ) : List RawText :=
  line.arguments ++ line.options.map Prod.snd

theorem texts_addOptions (line : CommandLine κ) (given : List (κ × RawText)) :
    ∀ t ∈ (line.addOptions given).texts, t ∈ given.map Prod.snd ∨ t ∈ line.texts := by
  intro t ht
  rcases List.mem_append.mp ht with harguments | hoptions
  · exact Or.inr (List.mem_append_left _ harguments)
  · change t ∈ (given ++ line.options).map Prod.snd at hoptions
    rw [List.map_append] at hoptions
    rcases List.mem_append.mp hoptions with hgiven | hline
    · exact Or.inl hgiven
    · exact Or.inr (List.mem_append_right _ hline)

theorem subset_of_splitValue {word value : RawText} (h : (splitValue word).2 = some value) :
    value ⊆ word := by
  unfold splitValue at h
  cases hdrop : word.dropWhile (· ≠ equals) with
  | nil =>
      rw [hdrop] at h
      cases h
  | cons c rest =>
      rw [hdrop] at h
      cases h
      intro c' hc'
      refine (List.dropWhile_sublist (· ≠ equals)).subset ?_
      rw [hdrop]
      exact List.mem_cons_of_mem _ hc'

theorem subset_of_readLetters {letters text : RawText} {keys : List κ} {key : κ}
    (h : readLetters specs letters = .ok (keys, .value key text)) : text ⊆ letters := by
  induction letters generalizing keys with
  | nil => cases h
  | cons c cs ih =>
      unfold readLetters at h
      split at h
      · cases h
      · split at h
        · split at h
          · cases h
          · cases h
            exact fun c' hc' => List.mem_cons_of_mem _ hc'
        · split at h
          · cases h
          · next hrest =>
            cases h
            exact fun c' hc' => List.mem_cons_of_mem _ (ih hrest hc')

theorem texts_readLong {word : RawText} {w : Word κ} (h : readLong specs word = .ok w) :
    ∀ t ∈ w.texts, t ⊆ word := by
  unfold readLong at h
  dsimp only at h
  split at h
  · cases h
  · split at h
    · next hvalue =>
      cases h
      intro t ht
      rw [List.mem_singleton.mp ht]
      exact subset_of_splitValue hvalue
    · cases h
      exact List.forall_mem_nil _
    · cases h
    · cases h
      intro t ht
      rw [List.mem_singleton.mp ht]
      exact List.nil_subset _

theorem texts_readWord {word : RawText} {w : Word κ} (h : readWord specs word = .ok w) :
    ∀ t ∈ w.texts, t ⊆ word := by
  have hplain : ∀ keys : List κ, ∀ t ∈ (keys.map fun k => (k, ([] : RawText))).map Prod.snd,
      t ⊆ word := by
    intro keys t ht
    obtain ⟨o, ho, rfl⟩ := List.mem_map.mp ht
    obtain ⟨k, -, rfl⟩ := List.mem_map.mp ho
    exact List.nil_subset _
  unfold readWord at h
  split at h
  · cases h
    exact List.forall_mem_nil _
  · exact texts_readLong h
  · cases h
    exact List.forall_mem_singleton.mpr (List.Subset.refl _)
  · next letters _ _ =>
    split at h
    · cases h
    · next keys ending hletters =>
      dsimp only at h
      split at h
      · cases h
        exact hplain keys
      · next key text =>
        cases h
        intro t ht
        change t ∈ ((keys.map fun k => (k, [])) ++ [(key, text)]).map Prod.snd at ht
        rw [List.map_append] at ht
        rcases List.mem_append.mp ht with hgiven | hlast
        · exact hplain keys t hgiven
        · rw [List.mem_singleton.mp hlast]
          exact fun c hc => List.mem_cons_of_mem _ (subset_of_readLetters hletters hc)
      · cases h
        exact hplain keys
  · cases h
    exact List.forall_mem_singleton.mpr (List.Subset.refl _)

/-- **All texts on a command line are parts of its words.** -/
theorem texts_read {words : List RawText} {line : CommandLine κ}
    (h : read specs words = .ok line) : ∀ t ∈ line.texts, ∃ word ∈ words, t ⊆ word := by
  have later : ∀ {first : RawText} {rest : List RawText} {t : RawText},
      (∃ word ∈ rest, t ⊆ word) → ∃ word ∈ first :: rest, t ⊆ word := by
    rintro first rest t ⟨word, hword, ht⟩
    exact ⟨word, List.mem_cons_of_mem _ hword, ht⟩
  fun_induction read specs words generalizing line with
  | case1 =>
      cases h
      exact List.forall_mem_nil _
  | case3 word rest _ =>
      cases h
      intro t ht
      rw [texts, List.map_nil, List.append_nil] at ht
      exact ⟨t, List.mem_cons_of_mem _ ht, List.Subset.refl _⟩
  | case5 word rest text hword others hothers ih =>
      cases h
      intro t ht
      rcases List.mem_cons.mp ht with rfl | hrest
      · exact ⟨word, List.mem_cons_self, texts_readWord hword _ List.mem_cons_self⟩
      · exact later (ih hothers t hrest)
  | case7 word rest given hword others hothers ih =>
      cases h
      intro t ht
      rcases texts_addOptions others given t ht with hgiven | hrest
      · exact ⟨word, List.mem_cons_self, texts_readWord hword t hgiven⟩
      · exact later (ih hothers t hrest)
  | case10 word given key name hword value rest others hothers ih =>
      cases h
      intro t ht
      rcases texts_addOptions others _ t ht with hgiven | hrest
      · rw [List.map_append] at hgiven
        rcases List.mem_append.mp hgiven with hplain | hvalue
        · exact ⟨word, List.mem_cons_self, texts_readWord hword t hplain⟩
        · rw [List.mem_singleton.mp hvalue]
          exact ⟨value, List.mem_cons_of_mem _ List.mem_cons_self, List.Subset.refl _⟩
      · exact later (later (ih hothers t hrest))
  | case2 | case4 | case6 | case8 | case9 => cases h

theorem mem_options_of_value? [BEq κ] [LawfulBEq κ] {line : CommandLine κ} {k : κ} {text : RawText}
    (h : line.value? k = some text) : (k, text) ∈ line.options := by
  obtain ⟨earlier, later, hsplit, -⟩ := List.lookup_eq_some_iff.mp h
  rw [← List.mem_reverse, hsplit]
  exact List.mem_append_right _ List.mem_cons_self

theorem mem_keys_of_value? [BEq κ] [LawfulBEq κ] {line : CommandLine κ} {k : κ} {text : RawText}
    (h : line.value? k = some text) : k ∈ line.keys :=
  List.mem_eraseDups.mpr (List.mem_map.mpr ⟨_, mem_options_of_value? h, rfl⟩)

theorem mem_texts_of_value? [BEq κ] [LawfulBEq κ] {line : CommandLine κ} {k : κ} {text : RawText}
    (h : line.value? k = some text) : text ∈ line.texts :=
  List.mem_append_right _ (List.mem_map.mpr ⟨_, mem_options_of_value? h, rfl⟩)

end CommandLine

/-! ## Requests have been checked -/

theorem stat_of_pathProblem? {disk : Disk} {typed : RawText}
    (h : pathProblem? disk true typed = none) :
    ∃ kind, disk.stat typed = some kind ∧ kind ≠ .directory := by
  unfold pathProblem? at h
  cases hstat : disk.stat typed with
  | none =>
      rw [hstat] at h
      cases h
  | some kind =>
      rw [hstat] at h
      refine ⟨kind, rfl, ?_⟩
      rintro rfl
      cases h

namespace ToolSpec

variable {κ : Type} [BEq κ] {s : ToolSpec κ} {disk : Disk} {words : List RawText}
  {request : Request κ}

/-- A request is a command line without a fault and with an input file. -/
theorem line_of_demand (h : s.demand disk words = .ok (.work request)) :
    CommandLine.read s.options words = .ok request.line ∧ s.fault? disk request.line = none
      ∧ ∃ others, request.line.arguments = request.input :: others := by
  unfold demand at h
  split at h
  · cases h
  · next line hline =>
    split at h
    · split at h <;> cases h
    · split at h
      · cases h
      · cases h
      · next hfault harguments =>
        cases h
        exact ⟨hline, hfault, _, harguments⟩

theorem problems_of_fault? {line : CommandLine κ} (h : s.fault? disk line = none) :
    (∀ k ∈ line.keys, s.problem? disk k (line.value? k) = none)
      ∧ inputProblem? disk line.arguments = none := by
  unfold fault? at h
  dsimp only at h
  simp only [Option.orElse_eq_orElse, Option.orElse_eq_or, Option.or_eq_none_iff] at h
  exact ⟨List.findSome?_eq_none_iff.mp h.1, h.2.1⟩

/-- The input file of a request has been found. -/
theorem found_of_demand (h : s.demand disk words = .ok (.work request)) :
    disk.Found (.ofText request.input) := by
  obtain ⟨-, hfault, others, harguments⟩ := line_of_demand h
  have hinput := (problems_of_fault? hfault).2
  rw [harguments] at hinput
  obtain ⟨kind, hstat, hkind⟩ := stat_of_pathProblem? (Option.map_eq_none_iff.mp hinput)
  exact ⟨request.input, kind, rfl, hstat, hkind⟩

/-- The options of a request have been checked. -/
theorem problem?_of_demand (h : s.demand disk words = .ok (.work request)) :
    ∀ k ∈ request.line.keys, s.problem? disk k (request.line.value? k) = none :=
  (problems_of_fault? (line_of_demand h).2.1).1

/-- The value of an option can stand on a command line. -/
theorem typed_of_demand [LawfulBEq κ] (hwords : ∀ word ∈ words, ∀ c ∈ word, c.InWord)
    (h : s.demand disk words = .ok (.work request)) {k : κ} {text : RawText}
    (hvalue : request.line.value? k = some text) : (Path.ofText text).Typed := by
  obtain ⟨word, hword, hsub⟩ := CommandLine.texts_read (line_of_demand h).1 text
    (CommandLine.mem_texts_of_value? hvalue)
  exact ⟨text, rfl, fun c hc => hwords word hword c (hsub hc)⟩

/-- A parser that takes its values from checked requests keeps to its documentation, if the values
do. -/
theorem parser_documented {α : Type} {values : Request κ → α} {reads writes : α → List Path}
    (hfound : ∀ request, s.demand disk words = .ok (.work request) →
      ∀ path ∈ reads (values request), disk.Found path)
    (htyped : ∀ request, s.demand disk words = .ok (.work request) →
      ∀ path ∈ writes (values request), path.Typed) :
    (s.parser values).Documented reads writes disk words := by
  constructor
  · intro status out h
    unfold parser at h
    split at h <;> cases h <;> rfl
  · intro status err h
    unfold parser at h
    split at h <;> cases h
    rfl
  · intro v h
    unfold parser at h
    split at h
    · cases h
    · cases h
    · cases h
    · next request hdemand =>
      cases h
      exact hfound request hdemand
  · intro v h
    unfold parser at h
    split at h
    · cases h
    · cases h
    · cases h
    · next request hdemand =>
      cases h
      exact htyped request hdemand

end ToolSpec

namespace AssembleTool

/-- The paths that the tool reads. -/
def Values.reads (values : Values) : List Path :=
  [values.input]

/-- The paths that the tool is asked to write. -/
def Values.writes (values : Values) : List Path :=
  values.output :: values.symbols.toList

theorem parser_documented (disk : Disk) {words : List RawText}
    (hwords : ∀ word ∈ words, ∀ c ∈ word, c.InWord) :
    parser.Documented Values.reads Values.writes disk words := by
  refine ToolSpec.parser_documented ?_ ?_
  · intro request hdemand path hpath
    rw [List.mem_singleton.mp hpath]
    exact ToolSpec.found_of_demand hdemand
  · intro request hdemand path hpath
    rcases List.mem_cons.mp hpath with rfl | hsymbols
    · show (Path.ofText ((request.line.value? .output).getD defaultOutput)).Typed
      cases hvalue : request.line.value? .output with
      | none => exact ⟨_, rfl, by decide⟩
      | some text => exact ToolSpec.typed_of_demand hwords hdemand hvalue
    · obtain ⟨text, hvalue, rfl⟩ := Option.map_eq_some_iff.mp (Option.mem_toList.mp hsymbols)
      exact ToolSpec.typed_of_demand hwords hdemand hvalue

end AssembleTool

namespace DisassembleTool

/-- The paths that the tool reads. -/
def Values.reads (values : Values) : List Path :=
  values.input :: values.symbols.toList

/-- The paths that the tool is asked to write. -/
def Values.writes (values : Values) : List Path :=
  values.output.toList

theorem parser_documented (disk : Disk) {words : List RawText}
    (hwords : ∀ word ∈ words, ∀ c ∈ word, c.InWord) :
    parser.Documented Values.reads Values.writes disk words := by
  refine ToolSpec.parser_documented ?_ ?_
  · intro request hdemand path hpath
    rcases List.mem_cons.mp hpath with rfl | hsymbols
    · exact ToolSpec.found_of_demand hdemand
    · obtain ⟨text, hvalue, rfl⟩ := Option.map_eq_some_iff.mp (Option.mem_toList.mp hsymbols)
      have hchecked := ToolSpec.problem?_of_demand hdemand .symbols
        (CommandLine.mem_keys_of_value? hvalue)
      rw [hvalue] at hchecked
      obtain ⟨kind, hstat, hkind⟩ := stat_of_pathProblem? (Option.map_eq_none_iff.mp hchecked)
      exact ⟨text, kind, rfl, hstat, hkind⟩
  · intro request hdemand path hpath
    obtain ⟨text, hvalue, rfl⟩ := Option.map_eq_some_iff.mp (Option.mem_toList.mp hpath)
    exact ToolSpec.typed_of_demand hwords hdemand hvalue

end DisassembleTool

end RomKit
