import RomKit.Proofs.Encoding
import RomKit.Proofs.FileWrites

/-!
# Paths that have been checked

A tool looks at the path of a file as it was typed, and later opens the file by
the path in normal form. The two differ: `p/` leads nowhere if `p` is a file, but
its normal form `p` leads there. The other way round nothing is lost. Empty parts
and dots lead from a directory to itself, and leaving them out makes the text of a
path no longer. So what was found is found again (`locate_of_stat`), and if it is a
file, it can be opened.
-/

namespace RomKit

/-! ## The text of a path in normal form -/

namespace Text

/-- Leaving out pieces, with a separator each, leaves out characters. -/
theorem sublist_intercalate_filter {α : Type} (separator : α) (keep : List α → Bool)
    (pieces : List (List α)) :
    List.Sublist ([separator].intercalate (pieces.filter keep))
      ([separator].intercalate pieces) := by
  induction pieces with
  | nil => exact List.Sublist.refl _
  | cons piece pieces ih =>
      cases pieces with
      | nil =>
          by_cases hkeep : keep piece = true
          · rw [List.filter_cons_of_pos hkeep]
            exact List.Sublist.refl _
          · rw [List.filter_cons_of_neg hkeep]
            exact List.nil_sublist _
      | cons next later =>
          rw [List.intercalate_cons_cons]
          by_cases hkeep : keep piece = true
          · rw [List.filter_cons_of_pos hkeep]
            cases hkept : (next :: later).filter keep with
            | nil =>
                rw [List.intercalate_singleton, List.append_assoc]
                exact List.sublist_append_left _ _
            | cons first others =>
                rw [hkept] at ih
                rw [List.intercalate_cons_cons]
                exact (List.Sublist.refl _).append ih
          · rw [List.filter_cons_of_neg hkeep]
            exact ih.trans (List.sublist_append_right _ _)

variable {α : Type} [DecidableEq α] {separator c : α} {cs : List α}

theorem splitOn_separator (separator : α) (cs : List α) :
    splitOn separator (separator :: cs) = [] :: splitOn separator cs := by
  unfold splitOn
  rw [List.foldr_cons, if_pos rfl]

theorem splitOn_of_ne (h : c ≠ separator) :
    splitOn separator (c :: cs) = consHead c (splitOn separator cs) := by
  unfold splitOn
  rw [List.foldr_cons, if_neg h]

theorem splitOn_ne_nil (separator : α) (cs : List α) : splitOn separator cs ≠ [] := by
  cases cs with
  | nil => exact List.cons_ne_nil _ _
  | cons c cs =>
      by_cases hc : c = separator
      · subst hc
        rw [splitOn_separator]
        exact List.cons_ne_nil _ _
      · rw [splitOn_of_ne hc]
        cases splitOn separator cs with
        | nil => exact List.cons_ne_nil _ _
        | cons piece pieces => exact List.cons_ne_nil _ _

/-- The pieces of a text, joined again, are the text. -/
theorem intercalate_splitOn (separator : α) (cs : List α) :
    [separator].intercalate (splitOn separator cs) = cs := by
  induction cs with
  | nil => rfl
  | cons c cs ih =>
      obtain ⟨piece, pieces, hpieces⟩ := List.exists_cons_of_ne_nil (splitOn_ne_nil separator cs)
      by_cases hc : c = separator
      · subst hc
        rw [splitOn_separator]
        rw [hpieces] at ih ⊢
        rw [List.intercalate_cons_cons, ih]
        rfl
      · rw [splitOn_of_ne hc]
        rw [hpieces] at ih ⊢
        rw [← ih]
        cases pieces with
        | nil => rfl
        | cons next later => rfl

end Text

namespace Path

/-- What normal form makes of a path as typed, without the slashes in front. -/
def stepsOf (typed : RawText) : RawText :=
  [slash].intercalate ((typedParts typed).filter isStep)

theorem stepsOf_slash (typed : RawText) : stepsOf (slash :: typed) = stepsOf typed := by
  unfold stepsOf typedParts
  rw [Text.splitOn_separator, List.filter_cons_of_neg (by decide)]

theorem sublist_stepsOf (typed : RawText) : List.Sublist (stepsOf typed) typed := by
  have hfilter := Text.sublist_intercalate_filter slash isStep (Text.splitOn slash typed)
  rwa [Text.intercalate_splitOn] at hfilter

theorem text_of_parts {p : Path} (h : p.parts ≠ []) :
    p.text = p.root.text ++ [slash].intercalate p.parts := by
  unfold text
  rw [if_neg fun hdot => h (List.isEmpty_iff.mp hdot.2)]

/-- **Normal form leaves out characters of a path, and adds none.** -/
theorem sublist_text_ofText {typed : RawText} (h : (ofText typed).parts ≠ []) :
    List.Sublist (ofText typed).text typed := by
  rw [text_of_parts h]
  show List.Sublist (RawText.ofString (rootOf typed).text ++ stepsOf typed) typed
  unfold rootOf
  split
  · next rest =>
    rw [show (CodePoint.char '/') = slash from rfl, stepsOf_slash]
    exact (sublist_stepsOf _).cons_cons slash
  · next rest _ =>
    rw [show (CodePoint.char '/') = slash from rfl, stepsOf_slash, stepsOf_slash]
    exact ((sublist_stepsOf rest).cons_cons slash).cons_cons slash
  · next rest _ _ =>
    rw [show (CodePoint.char '/') = slash from rfl, stepsOf_slash]
    exact (sublist_stepsOf rest).cons_cons slash
  · exact sublist_stepsOf typed

theorem text_ofText_ne_nil {typed : RawText} (h : (ofText typed).parts ≠ []) :
    (ofText typed).text ≠ [] := by
  rw [text_of_parts h]
  obtain ⟨part, parts, hparts⟩ := List.exists_cons_of_ne_nil h
  have hstep : isStep part = true := by
    have hmem : part ∈ (ofText typed).parts := hparts ▸ List.mem_cons_self
    exact (List.mem_filter.mp hmem).2
  have hpart : part ≠ [] := by
    intro hempty
    rw [hempty] at hstep
    cases hstep
  rw [hparts]
  intro hnil
  have hjoined := (List.append_eq_nil_iff.mp hnil).2
  cases parts with
  | nil =>
      rw [List.intercalate_singleton] at hjoined
      exact hpart hjoined
  | cons next later =>
      rw [List.intercalate_cons_cons, List.append_assoc] at hjoined
      exact hpart (List.append_eq_nil_iff.mp hjoined).1

end Path

/-! ## The way along a path -/

namespace Disk

variable {d : Disk} {typed : RawText}

/-- The second list has the names of the first but for some that stay in a directory. -/
inductive Thins : List FileName → List FileName → Prop where
  | nil : Thins [] []
  | keep {names names' : List FileName} (name : FileName) :
      Thins names names' → Thins (name :: names) (name :: names')
  | skip {names names' : List FileName} {name : FileName} :
      name = [] ∨ name = selfName → Thins names names' → Thins (name :: names) names'

namespace Thins

theorem append_left {names names' : List FileName} (more : List FileName)
    (h : Thins names names') : Thins (more ++ names) (more ++ names') := by
  induction more with
  | nil => exact h
  | cons name more ih => exact .keep name ih

/-- Normal form leaves out parts that stay in a directory. -/
theorem of_isStep (parts : List RawText) :
    Thins (parts.map nameOf) ((parts.filter Path.isStep).map nameOf) := by
  induction parts with
  | nil => exact .nil
  | cons part parts ih =>
      by_cases hstep : Path.isStep part = true
      · rw [List.filter_cons_of_pos hstep]
        exact .keep _ ih
      · rw [List.filter_cons_of_neg hstep]
        refine .skip ?_ ih
        unfold Path.isStep at hstep
        cases part with
        | nil => exact Or.inl rfl
        | cons c rest =>
            have hdot : c :: rest = [Path.dot] := by simpa using hstep
            rw [hdot]
            exact Or.inr rfl

end Thins

/-- A step that stays is made from a directory. -/
theorem step_of_skip {i : NodeId} {name : FileName} (h : name = [] ∨ name = selfName) :
    d.step i name = .into i ∨ ∃ e, d.step i name = .stop e := by
  unfold step
  split
  · exact Or.inr ⟨_, rfl⟩
  · refine Or.inl ?_
    have hshort : ¬nameLimit < name.length := by
      rcases h with rfl | rfl <;> decide
    rw [if_neg hshort, if_pos h]
  · exact Or.inr ⟨_, rfl⟩

theorem walkWith_thins {follow : NodeId → List FileName → Except SystemError Spot}
    (hfollow : ∀ i names names' spot, Thins names names' → follow i names = .ok spot →
      follow i names' = .ok spot)
    {names names' : List FileName} (h : Thins names names') : ∀ {i : NodeId} {spot : Spot},
    d.walkWith follow i names = .ok spot → d.walkWith follow i names' = .ok spot := by
  induction h with
  | nil => exact fun h => h
  | keep name hrest ih =>
      intro i spot hwalk
      unfold walkWith at hwalk ⊢
      cases hstep : d.step i name with
      | into j =>
          rw [hstep] at hwalk
          exact ih hwalk
      | through j more =>
          rw [hstep] at hwalk
          exact hfollow _ _ _ _ (hrest.append_left more) hwalk
      | free =>
          rw [hstep] at hwalk
          dsimp only at hwalk ⊢
          split at hwalk
          · next hnames =>
            subst hnames
            cases hrest
            exact hwalk
          · cases hwalk
      | stop e =>
          rw [hstep] at hwalk
          cases hwalk
  | skip hname hrest ih =>
      intro i spot hwalk
      unfold walkWith at hwalk
      rcases step_of_skip (d := d) (i := i) hname with hstep | ⟨e, hstep⟩
      · rw [hstep] at hwalk
        exact ih hwalk
      · rw [hstep] at hwalk
        cases hwalk

/-- Names that stay in a directory can be left out. -/
theorem walk_thins (links : Nat) : ∀ (i : NodeId) (names names' : List FileName) (spot : Spot),
    Thins names names' → d.walk links i names = .ok spot → d.walk links i names' = .ok spot := by
  induction links with
  | zero =>
      refine fun i names names' spot h hwalk => walkWith_thins (fun _ _ _ _ _ hfollow => ?_) h hwalk
      cases hfollow
  | succ links ih => exact fun i names names' spot h hwalk => walkWith_thins ih h hwalk

/-- A walk along a name starts in a directory. -/
theorem directory_of_walk {links : Nat} {i : NodeId} {name : FileName} {names : List FileName}
    {spot : Spot} (h : d.walk links i (name :: names) = .ok spot) :
    d.kind? (.node i) = some .directory := by
  have hstep : ∀ follow, d.walkWith follow i (name :: names) = .ok spot →
      d.kind? (.node i) = some .directory := by
    intro follow hwalk
    unfold walkWith step at hwalk
    unfold kind?
    dsimp only
    split at hwalk
    · next hto =>
      split at hto
      · cases hto
      · next hnode => rw [hnode]
      · cases hto
    · next hthrough =>
      split at hthrough
      · cases hthrough
      · next hnode => rw [hnode]
      · cases hthrough
    · next hfree =>
      split at hfree
      · cases hfree
      · next hnode => rw [hnode]
      · cases hfree
    · cases hwalk
  cases links with
  | zero => exact hstep _ h
  | succ links => exact hstep _ h

/-- **What a path as typed leads to is there in normal form**, unless it is a directory. -/
theorem locate_of_stat {kind : NodeKind} (h : d.stat typed = some kind)
    (hkind : kind ≠ .directory) :
    ∃ spot, d.locate (.ofText typed) = .ok spot ∧ d.kind? spot = some kind := by
  unfold stat at h
  split at h
  · next spot hlocate =>
    obtain ⟨⟨bytes, hbytes, hzero, hempty, hlong⟩, hwalk⟩ := locateAlong_eq_ok_iff.mp hlocate
    have hsteps := walk_thins _ _ _ _ _ (Thins.of_isStep _) hwalk
    have hparts : (Path.ofText typed).parts ≠ [] := by
      -- without parts the path stays where it starts, in a directory
      intro hnone
      have hstay : (Path.typedParts typed).filter Path.isStep = [] := hnone
      rw [hstay] at hsteps
      obtain ⟨part, parts, hpieces⟩ :=
        List.exists_cons_of_ne_nil (Text.splitOn_ne_nil Path.slash typed)
      have hdirectory : d.kind? (.node (d.startOf (Path.rootOf typed))) = some .directory := by
        rw [show Path.typedParts typed = part :: parts from hpieces] at hwalk
        exact directory_of_walk hwalk
      have hspot : Spot.node (d.startOf (Path.rootOf typed)) = spot := Except.ok.inj hsteps
      rw [← hspot, hdirectory] at h
      exact hkind (Option.some.inj h).symm
    obtain ⟨bytes', hbytes', hsub⟩ :=
      Utf8.encodeName_of_sublist (Path.sublist_text_ofText hparts) hbytes
    refine ⟨spot, locateAlong_eq_ok_iff.mpr ⟨⟨bytes', hbytes', ?_, ?_, ?_⟩, hsteps⟩, h⟩
    · exact fun hmem => hzero (hsub.subset hmem)
    · exact Utf8.encodeName_ne_nil hbytes' (Path.text_ofText_ne_nil hparts)
    · exact Nat.le_trans hsub.length_le hlong
  · cases h

/-- A path names a file that has been looked for, as typed, and found. -/
def Found (d : Disk) (path : Path) : Prop :=
  ∃ typed kind, path = .ofText typed ∧ d.stat typed = some kind ∧ kind ≠ .directory

/-- **A file that has been found is opened**, unless it is a device. -/
theorem Found.read_cases {path : Path} (h : d.Found path) :
    (∃ bytes, d.read path = .ok ⟨bytes, none⟩)
      ∨ ∃ device, .device device ∈ d.nodes
        ∧ d.read path = match device.refusal with
          | some e => .error (.of e [path.text])
          | none => .ok ⟨device.contents, device.readError.map (.of · [])⟩ := by
  obtain ⟨typed, kind, rfl, hstat, hkind⟩ := h
  obtain ⟨spot, hspot, hfound⟩ := locate_of_stat hstat hkind
  rw [read_of_locate hspot]
  unfold kind? at hfound
  unfold readAt
  cases spot with
  | vacant directory name => cases hfound
  | node i =>
      dsimp only at hfound ⊢
      cases hnode : d.node? i with
      | none =>
          rw [hnode] at hfound
          cases hfound
      | some node =>
          rw [hnode] at hfound
          cases node with
          | file bytes => exact Or.inl ⟨bytes, rfl⟩
          | device device => exact Or.inr ⟨device, List.mem_of_getElem? hnode, rfl⟩
          | link target => cases hfound
          | directory parent entries => exact absurd (Option.some.inj hfound).symm hkind

end Disk

/-! ## Paths on a command line -/

namespace Text

section

variable {α : Type} {separator c : α} {pieces : List (List α)}

theorem mem_intercalate_of_mem {piece : List α} (hpiece : piece ∈ pieces) (hc : c ∈ piece) :
    c ∈ [separator].intercalate pieces := by
  induction pieces with
  | nil => cases hpiece
  | cons first others ih =>
      cases others with
      | nil =>
          rw [List.mem_singleton.mp hpiece] at hc
          rw [List.intercalate_singleton]
          exact hc
      | cons next later =>
          rw [List.intercalate_cons_cons, List.append_assoc]
          rcases List.mem_cons.mp hpiece with rfl | hlater
          · exact List.mem_append_left _ hc
          · exact List.mem_append_right _ (List.mem_append_right _ (ih hlater))

theorem mem_intercalate (h : c ∈ [separator].intercalate pieces) :
    c = separator ∨ ∃ piece ∈ pieces, c ∈ piece := by
  induction pieces with
  | nil => cases h
  | cons first others ih =>
      cases others with
      | nil =>
          rw [List.intercalate_singleton] at h
          exact Or.inr ⟨first, List.mem_cons_self, h⟩
      | cons next later =>
          rw [List.intercalate_cons_cons, List.append_assoc] at h
          rcases List.mem_append.mp h with hfirst | hrest
          · exact Or.inr ⟨first, List.mem_cons_self, hfirst⟩
          · rcases List.mem_append.mp hrest with hseparator | hlater
            · exact Or.inl (List.mem_singleton.mp hseparator)
            · rcases ih hlater with heq | ⟨piece, hpiece, hc⟩
              · exact Or.inl heq
              · exact Or.inr ⟨piece, List.mem_cons_of_mem _ hpiece, hc⟩

end

variable {α : Type} [DecidableEq α]

/-- The pieces of a text have nothing but what the text has. -/
theorem mem_of_mem_splitOn {separator c : α} {cs piece : List α}
    (hpiece : piece ∈ splitOn separator cs) (hc : c ∈ piece) : c ∈ cs := by
  rw [← intercalate_splitOn separator cs]
  exact mem_intercalate_of_mem hpiece hc

end Text

namespace Path

/-- The path of a word on a command line. -/
def Typed (p : Path) : Prop :=
  ∃ typed, p = .ofText typed ∧ ∀ c ∈ typed, c.InWord

/-- The parts of the path can stand on a command line. -/
def InWords (p : Path) : Prop :=
  ∀ part ∈ p.parts, ∀ c ∈ part, c.InWord

theorem Typed.inWords {p : Path} (h : p.Typed) : p.InWords := by
  obtain ⟨typed, rfl, hwords⟩ := h
  intro part hpart c hc
  exact hwords c (Text.mem_of_mem_splitOn (List.mem_filter.mp hpart).1 hc)

theorem InWords.addToName {p p' : Path} {more : RawText} (h : p.InWords)
    (hmore : ∀ c ∈ more, c.InWord) (hadd : p.addToName more = .ok p') : p'.InWords := by
  unfold Path.addToName at hadd
  split at hadd
  · cases hadd
  · next hname =>
    cases hadd
    have hlast : p.name ∈ p.parts := by
      unfold name
      cases hparts : p.parts with
      | nil =>
          unfold name at hname
          rw [hparts] at hname
          exact absurd rfl hname
      | cons part parts =>
          rw [List.getLastD_cons]
          exact List.getLastD_mem_cons
    intro part hpart c hc
    rcases List.mem_append.mp hpart with hfront | hback
    · exact h part ((List.dropLast_sublist _).subset hfront) c hc
    · rw [List.mem_singleton.mp hback] at hc
      rcases List.mem_append.mp hc with hold | hnew
      · exact h _ hlast c hold
      · exact hmore c hnew

theorem InWords.text {p : Path} (h : p.InWords) : ∀ c ∈ p.text, c.InWord := by
  have hroot : ∀ c ∈ RawText.ofString p.root.text, c.InWord := by
    cases p.root <;> decide
  intro c hc
  unfold Path.text at hc
  split at hc
  · rw [List.mem_singleton.mp hc]
    decide
  · rcases List.mem_append.mp hc with hfront | hback
    · exact hroot c hfront
    · rcases Text.mem_intercalate hback with rfl | ⟨part, hpart, hmem⟩
      · decide
      · exact h part hpart c hmem

end Path

/-- The error of something that is no path, and can be none on a command line. -/
def SystemFault.OfNoPath (fault : SystemFault) : Prop :=
  fault.kind = .zeroCharacter ∨ fault.kind = .notEncodable

theorem SystemFault.not_ofNoPath_of (e : SystemError) (paths : List RawText) :
    ¬(SystemFault.of e paths).OfNoPath := by
  unfold OfNoPath SystemFault.of kindOf
  dsimp only
  repeat' split
  all_goals simp

namespace Disk

variable {d : Disk} {path : Path} {bytes : List UInt8} {fault : SystemFault}

theorem not_ofNoPath_of_locate (hpath : path.InWords) (h : d.locate path = .error fault) :
    ¬fault.OfNoPath := by
  obtain ⟨text, htext, hzero⟩ := Utf8.exists_encodeName hpath.text
  unfold locate locateAlong at h
  rw [htext] at h
  dsimp only at h
  rw [if_neg (by simpa using hzero)] at h
  repeat' split at h
  all_goals first | cases h; exact SystemFault.not_ofNoPath_of _ _ | cases h

theorem not_ofNoPath_of_write (hpath : path.InWords) (h : d.write path bytes = .error fault) :
    ¬fault.OfNoPath := by
  unfold write at h
  cases hlocate : d.locate path with
  | error e =>
      rw [hlocate] at h
      cases h
      exact not_ofNoPath_of_locate hpath hlocate
  | ok spot =>
      rw [hlocate] at h
      dsimp only at h
      unfold writeAt at h
      repeat' split at h
      all_goals first | cases h; exact SystemFault.not_ofNoPath_of _ _ | cases h

/-- The errors of files that have been found are those of devices. -/
theorem Found.not_ofNoPath {b : List UInt8} (hfound : d.Found path)
    (h : d.read path = .error fault ∨ d.read path = .ok ⟨b, some fault⟩) :
    ¬fault.OfNoPath := by
  rcases hfound.read_cases with ⟨found, hread⟩ | ⟨device, -, hread⟩
  · rw [hread] at h
    rcases h with h | h <;> cases h
  · rw [hread] at h
    cases hrefusal : device.refusal with
    | some e =>
        rw [hrefusal] at h
        rcases h with h | h
        · cases h
          exact SystemFault.not_ofNoPath_of _ _
        · cases h
    | none =>
        rw [hrefusal] at h
        rcases h with h | h
        · cases h
        · obtain ⟨e, -, rfl⟩ := Option.map_eq_some_iff.mp
            (congrArg Contents.fault (Except.ok.inj h))
          exact SystemFault.not_ofNoPath_of _ _

end Disk

end RomKit
