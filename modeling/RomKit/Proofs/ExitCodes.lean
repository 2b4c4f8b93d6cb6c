import RomKit.Proofs.ParsedValues
import RomKit.Proofs.ToolWrites

/-!
# Exit codes of the tools

What a command line comes to is said here in terms of the files, for both tools,
and every run is shown to end as its verdict says. The parser is any that keeps to
its documentation (`Parser.Documented`). So the files that a run reads were looked
at before the work began, and can be opened unless they are devices. What is left to
go wrong is writing, and there some faults of paths and names are taken for faults of
the tool.
-/

namespace RomKit

/-! ## The assembler -/

namespace AssembleTool

/-- What the work on the values of a command line comes to. -/
inductive Ends (channel : Channel) (disk : Disk) (values : Values) : Verdict → Prop where
  | nameless {e : PathError} :
      imagePath values.output = .error e → Ends channel disk values (.nameless e)
  | job {image : Path} {v : Verdict} {after : Disk} :
      imagePath values.output = .ok image → Course (values.job image) channel disk v after →
      Ends channel disk values v

/-- What a command line comes to. -/
def ComesTo (parse : Parser Values) (host : Host) (disk : Disk) (words : List RawText) :
    Verdict → Prop :=
  parse.ComesTo disk words (Ends host.channel disk)

theorem inWords_imagePath {output image : Path} (h : output.InWords)
    (himage : imagePath output = .ok image) : image.InWords := by
  unfold imagePath at himage
  split at himage
  · cases himage
    exact h
  · exact h.addToName (by decide) himage

section

variable {values : Values} {image : Path} {channel : Channel} {disk after : Disk} {v : Verdict}

/-- A source that has been found is opened, unless it is a device. -/
theorem Course.not_unread {fault : SystemFault} (hfound : disk.Found values.input)
    (hdisk : ∀ device, Node.device device ∉ disk.nodes)
    (h : Course (values.job image) channel disk (.unread fault) after) : False := by
  cases h with
  | unread _ hread =>
      rcases hfound.read_cases with ⟨bytes, hbytes⟩ | ⟨device, hdevice, -⟩
      · cases hread.symm.trans hbytes
      · exact hdisk device hdevice
  | written _ _ _ hafter => cases hafter

/-- The errors about files are not those of paths that no command line holds. -/
theorem Course.not_ofNoPath {fault : SystemFault} (hfound : disk.Found values.input)
    (himage : image.InWords) (hsymbols : ∀ path, values.symbols = some path → path.InWords)
    (h : Course (values.job image) channel disk v after) (hv : v.fault? = some fault) :
    ¬fault.OfNoPath := by
  cases h with
  | unsaid => cases hv
  | unread _ hread =>
      cases hv
      exact hfound.not_ofNoPath (b := []) (Or.inl hread)
  | rejected => cases hv
  | unwritten _ _ hwrite =>
      cases hv
      exact Disk.not_ofNoPath_of_write himage hwrite
  | written _ _ _ hafter =>
      cases hafter with
      | unwritten hpath hwrite =>
          cases hv
          exact Disk.not_ofNoPath_of_write (hsymbols _ hpath) hwrite
      | unencodable => cases hv
      | unsaid => cases hv
      | done => cases hv

end

theorem judgedBy_ends {disk : Disk} {values : Values} (host : Host)
    (hfound : ∀ path ∈ values.reads, disk.Found path)
    (htyped : ∀ path ∈ values.writes, path.Typed) :
    (main host.trace values ⟨disk, host.channel, [], []⟩).JudgedBy disk
      (Ends host.channel disk values) := by
  have hinput : disk.Found values.input := hfound _ List.mem_cons_self
  have hsymbols : ∀ path, values.symbols = some path → path.InWords := by
    intro path hpath
    have hmem : path ∈ values.symbols.toList := Option.mem_toList.mpr hpath
    exact (htyped path (List.mem_cons_of_mem _ hmem)).inWords
  unfold main
  cases himage : imagePath values.output with
  | error e =>
      refine Run.judgedBy_of_only (.nameless himage) (fun v hv => ?_) rfl rfl
      cases hv with
      | nameless h =>
          cases himage.symm.trans h
          rfl
      | job h _ => cases himage.symm.trans h
  | ok image =>
      have hcourse : ∀ v, Ends host.channel disk values v →
          ∃ after, Course (values.job image) host.channel disk v after := by
        intro v hv
        cases hv with
        | nameless h => cases himage.symm.trans h
        | job h hcourse =>
            cases himage.symm.trans h
            exact ⟨_, hcourse⟩
      have hwords := inWords_imagePath (htyped _ List.mem_cons_self).inWords himage
      refine Run.judgedBy ?_ ?_ ?_ ?_
      · obtain ⟨v, after, h⟩ := exists_course (values.job image) host.channel disk
        exact ⟨v, .job himage h⟩
      · intro v hv
        obtain ⟨after, h⟩ := hcourse v hv
        exact (run_of_course (w := ⟨disk, host.channel, [], []⟩) h _ _ _).1
      · intro hdisk fault hv
        obtain ⟨after, h⟩ := hcourse _ hv
        exact h.not_unread hinput hdisk
      · intro v fault hv hfault
        obtain ⟨after, h⟩ := hcourse v hv
        exact h.not_ofNoPath hinput hwords hsymbols hfault

theorem judgedBy_comesTo {parse : Parser Values} {disk : Disk} {words : List RawText}
    (hparse : parse.Documented Values.reads Values.writes disk words) (host : Host) :
    (run parse host disk words).JudgedBy disk (ComesTo parse host disk words) :=
  Parser.judgedBy_comesTo hparse fun values haccepted =>
    judgedBy_ends host (hparse.found values haccepted) (hparse.typed values haccepted)

end AssembleTool

/-! ## The disassembler -/

namespace DisassembleTool

open Work

/-- A file is not opened, or not read to its end. -/
def Unread (disk : Disk) (path : Path) (fault : SystemFault) : Prop :=
  disk.read path = .error fault ∨ ∃ bytes, disk.read path = .ok ⟨bytes, some fault⟩

/-- The image is read, has bytes, and starts at an address. -/
structure Placed (values : Values) (disk : Disk) (data : List UInt8) (base : Int) : Prop where
  read : disk.read values.input = .ok ⟨data, none⟩
  filled : data ≠ []
  base : BaseAddress.choose data.length values.address = .ok base

/-- The names for addresses that the tool works with. -/
inductive Named (values : Values) (disk : Disk) : SymbolMap → Prop where
  | nameless : values.symbols = none → Named values disk .empty
  | loaded {path : Path} {symbols : List (String × Int)} :
      values.symbols = some path → SymbolFile.load disk path = .ok symbols →
      Named values disk (SymbolMap.empty.insertSymbols symbols)

/-- The entries that the tool lists. -/
def listed (values : Values) (data : List UInt8) (base : Int) (symbols : SymbolMap) : List Entry :=
  disassemble symbols data (some base) values.count

/-- The text that the tool delivers. -/
def listing (values : Values) (data : List UInt8) (base : Int) (symbols : SymbolMap) : RawText :=
  let report : Report := ⟨values.input.name, data.length, base, listed values data base symbols⟩
  if values.json then report.json else report.text !values.noBytes

/-- What the delivery of a text comes to. -/
inductive Delivery (values : Values) (channel : Channel) (disk : Disk) (text : RawText) :
    Verdict → Prop where
  | printed : values.output = none → channel.refusal? (Text.plain text) = none →
      Delivery values channel disk text .done
  /-- The channel does not take the text. -/
  | unsaid {fault : Utf8.EncodeFault} :
      values.output = none → channel.refusal? (Text.plain text) = some fault →
      Delivery values channel disk text (.unsaid fault)
  | unwritten {path : Path} {fault : SystemFault} :
      values.output = some path →
      disk.write path (Utf8.encodeTexts [text]).1 = .error fault →
      Delivery values channel disk text (.unwritten fault)
  /-- The text has no bytes. -/
  | unencodable {path : Path} {fault : Utf8.EncodeFault} {after : Disk} :
      values.output = some path → disk.write path (Utf8.encodeTexts [text]).1 = .ok after →
      (Utf8.encodeTexts [text]).2 = some fault →
      Delivery values channel disk text (.unencodable fault)
  | written {path : Path} {after : Disk} :
      values.output = some path → disk.write path (Utf8.encodeTexts [text]).1 = .ok after →
      (Utf8.encodeTexts [text]).2 = none → Delivery values channel disk text .done

/-- Everything the tool can do, with what it comes to. -/
inductive Course (values : Values) (channel : Channel) (disk : Disk) : Verdict → Prop where
  /-- The image cannot be read. -/
  | unread {fault : SystemFault} :
      Unread disk values.input fault → Course values channel disk (.unread fault)
  | emptyImage : disk.read values.input = .ok ⟨[], none⟩ → Course values channel disk .emptyImage
  | misplaced {data : List UInt8} {e : BaseAddress.Error} :
      disk.read values.input = .ok ⟨data, none⟩ → data ≠ [] →
      BaseAddress.choose data.length values.address = .error e →
      Course values channel disk (.misplaced e)
  /-- The symbol file cannot be read. -/
  | unreadSymbols {data : List UInt8} {base : Int} {path : Path} {fault : SystemFault} :
      Placed values disk data base → values.symbols = some path →
      SymbolFile.load disk path = .error (.system fault) → ¬fault.OfNoPath →
      Course values channel disk (.unread fault)
  | badSymbols {data : List UInt8} {base : Int} {path : Path} {e : LoadError} :
      Placed values disk data base → values.symbols = some path →
      SymbolFile.load disk path = .error e → (∀ fault, e = .system fault → fault.OfNoPath) →
      Course values channel disk (.badSymbols e)
  | delivered {data : List UInt8} {base : Int} {symbols : SymbolMap} {v : Verdict} :
      Placed values disk data base → Named values disk symbols →
      Delivery values channel disk (listing values data base symbols) v →
      Course values channel disk v

theorem exists_delivery (values : Values) (channel : Channel) (disk : Disk) (text : RawText) :
    ∃ v, Delivery values channel disk text v := by
  cases houtput : values.output with
  | none =>
      cases hrefusal : channel.refusal? (Text.plain text) with
      | none => exact ⟨_, .printed houtput hrefusal⟩
      | some fault => exact ⟨_, .unsaid houtput hrefusal⟩
  | some path =>
      cases hwrite : disk.write path (Utf8.encodeTexts [text]).1 with
      | error fault => exact ⟨_, .unwritten houtput hwrite⟩
      | ok after =>
          cases hfault : (Utf8.encodeTexts [text]).2 with
          | none => exact ⟨_, .written houtput hwrite hfault⟩
          | some fault => exact ⟨_, .unencodable houtput hwrite hfault⟩

theorem exists_course_of_named {values : Values} {channel : Channel} {disk : Disk}
    {data : List UInt8} {base : Int} {symbols : SymbolMap} (hplaced : Placed values disk data base)
    (hnamed : Named values disk symbols) : ∃ v, Course values channel disk v := by
  obtain ⟨v, h⟩ := exists_delivery values channel disk (listing values data base symbols)
  exact ⟨v, .delivered hplaced hnamed h⟩

/-- **Every run takes one of these courses.** -/
theorem exists_course (values : Values) (channel : Channel) (disk : Disk) :
    ∃ v, Course values channel disk v := by
  cases hread : disk.read values.input with
  | error fault => exact ⟨_, .unread (Or.inl hread)⟩
  | ok contents =>
      obtain ⟨data, fault⟩ := contents
      cases fault with
      | some fault => exact ⟨_, .unread (Or.inr ⟨data, hread⟩)⟩
      | none =>
          by_cases hfilled : data = []
          · subst hfilled
            exact ⟨_, .emptyImage hread⟩
          cases hbase : BaseAddress.choose data.length values.address with
          | error e => exact ⟨_, .misplaced hread hfilled hbase⟩
          | ok base =>
              have hplaced : Placed values disk data base := ⟨hread, hfilled, hbase⟩
              cases hpath : values.symbols with
              | none => exact exists_course_of_named hplaced (.nameless hpath)
              | some path =>
                  cases hload : SymbolFile.load disk path with
                  | ok symbols => exact exists_course_of_named hplaced (.loaded hpath hload)
                  | error e =>
                      by_cases he : ∀ fault, e = .system fault → fault.OfNoPath
                      · exact ⟨_, .badSymbols hplaced hpath hload he⟩
                      · obtain ⟨fault, rfl, hfault⟩ : ∃ fault, e = .system fault
                            ∧ ¬fault.OfNoPath := by simpa using he
                        exact ⟨_, .unreadSymbols hplaced hpath hload hfault⟩

/-! ### The work ends as its course says -/

section

variable {values : Values} {w : World} {data : List UInt8} {base : Int} {symbols : SymbolMap}

theorem work_of_unread {fault : SystemFault} (h : Unread w.disk values.input fault) :
    work values w = .error (.system fault) w :=
  bind_of_error (readFile_of_fault h)

theorem work_of_empty (h : w.disk.read values.input = .ok ⟨[], none⟩) :
    ∃ w', work values w = .ok .buildError w' :=
  ⟨_, bind_of_ok (readFile_of_ok h)⟩

theorem work_of_data (h : w.disk.read values.input = .ok ⟨data, none⟩) (hfilled : data ≠ []) :
    work values w = list values data w := by
  unfold work
  rw [bind_of_ok (readFile_of_ok h), if_neg (by simpa using hfilled)]

theorem chooseBase_of_ok {address : Option RawText} {size : Nat}
    (h : BaseAddress.choose size address = .ok base) : chooseBase size address w = .ok base w := by
  unfold chooseBase
  rw [h]
  rfl

theorem chooseBase_of_error {address : Option RawText} {size : Nat} {e : BaseAddress.Error}
    (h : BaseAddress.choose size address = .error e) :
    chooseBase size address w = .error (.badParameter e.message) w := by
  unfold chooseBase
  rw [h]
  rfl

theorem loadSymbols_of_named (h : Named values w.disk symbols) :
    loadSymbols values.symbols w = .ok symbols w := by
  cases h with
  | nameless hpath =>
      rw [hpath]
      rfl
  | loaded hpath hload =>
      rw [hpath]
      unfold loadSymbols
      dsimp only
      rw [get_bind, hload]
      rfl

theorem loadSymbols_of_fault {path : Path} {fault : SystemFault}
    (hpath : values.symbols = some path)
    (h : SymbolFile.load w.disk path = .error (.system fault)) (hfault : ¬fault.OfNoPath) :
    loadSymbols values.symbols w = .error (.system fault) w := by
  unfold SystemFault.OfNoPath at hfault
  rw [hpath]
  unfold loadSymbols
  dsimp only
  rw [get_bind, h]
  dsimp only
  rw [if_neg hfault]
  rfl

theorem loadSymbols_of_error {path : Path} {e : LoadError} (hpath : values.symbols = some path)
    (h : SymbolFile.load w.disk path = .error e)
    (he : ∀ fault, e = .system fault → fault.OfNoPath) :
    ∃ message, loadSymbols values.symbols w = .error (.badParameter message) w := by
  rw [hpath]
  unfold loadSymbols
  dsimp only
  rw [get_bind, h]
  cases e with
  | system fault =>
      have hfault := he fault rfl
      unfold SystemFault.OfNoPath at hfault
      dsimp only
      rw [if_pos hfault]
      exact ⟨_, rfl⟩
  | encoding fault => exact ⟨_, rfl⟩
  | content e => exact ⟨_, rfl⟩

/-- The end of the work: to tell what is done, and to deliver the listing. -/
def finish (values : Values) (data : List UInt8) (base : Int) (symbols : SymbolMap) :
    Work ExitCode :=
  (if values.verbose then
      warn ("Disassembling " ++ values.input.text ++ " (" ++ toString data.length
        ++ " bytes) at $" ++ Hex.address base)
    else pure ())
    >>= fun _ =>
      deliver values (listing values data base symbols) (listed values data base symbols).length
    >>= fun _ => pure .success

theorem list_eq (values : Values) (data : List UInt8) :
    list values data = chooseBase data.length values.address
      >>= fun base => loadSymbols values.symbols
      >>= fun symbols => finish values data base symbols := by
  unfold list finish
  cases values.verbose <;> rfl

theorem work_of_placed (hplaced : Placed values w.disk data base) :
    work values w
      = (loadSymbols values.symbols >>= fun symbols => finish values data base symbols) w := by
  rw [work_of_data hplaced.read hplaced.filled, list_eq, bind_of_ok (chooseBase_of_ok hplaced.base)]

theorem deliver_of_delivery {text : RawText} {n : Nat} {v : Verdict}
    (h : Delivery values w.channel w.disk text v) :
    EndsAs v ((deliver values text n >>= fun _ => pure .success) w) := by
  unfold deliver
  cases h with
  | printed houtput htaken =>
      obtain ⟨w', hprint, -⟩ := print_of_taken htaken
      rw [houtput]
      dsimp only
      rw [bind_of_ok hprint]
      rfl
  | unsaid houtput hrefused =>
      rw [houtput]
      dsimp only
      rw [bind_of_error (print_of_refused hrefused)]
      rfl
  | unwritten houtput hwrite =>
      rw [houtput]
      dsimp only
      rw [bind_of_error (bind_of_error (onDisk_of_error (writeTexts_of_fault hwrite)))]
      rfl
  | unencodable houtput hwrite hfault =>
      rw [houtput]
      dsimp only
      rw [bind_of_error (bind_of_error (onDisk_of_error (writeTexts_of_unencodable hwrite hfault)))]
      rfl
  | @written path after houtput hwrite hfault =>
      obtain ⟨w', hwarn, -⟩ := quiet_when (quiet_warn
        ("Wrote " ++ toString n ++ " entries to " ++ path.text)) values.verbose
        { w with disk := after }
      rw [houtput]
      dsimp only
      rw [bind_of_ok ((bind_of_ok (onDisk_of_ok (writeTexts_of_ok hwrite hfault))).trans hwarn)]
      rfl

theorem finish_of_delivery {v : Verdict}
    (h : Delivery values w.channel w.disk (listing values data base symbols) v) :
    EndsAs v (finish values data base symbols w) := by
  obtain ⟨w', hwarn, hsame⟩ := quiet_when (quiet_warn
    ("Disassembling " ++ values.input.text ++ " (" ++ toString data.length
      ++ " bytes) at $" ++ Hex.address base)) values.verbose w
  unfold finish
  rw [← hsame.disk, ← hsame.channel] at h
  rw [bind_of_ok hwarn]
  exact deliver_of_delivery h

/-- **The work of the tool ends as its course says.** -/
theorem work_of_course {v : Verdict} (h : Course values w.channel w.disk v) :
    EndsAs v (work values w) := by
  cases h with
  | unread hread =>
      rw [work_of_unread hread]
      rfl
  | emptyImage hread =>
      obtain ⟨w', hwork⟩ := work_of_empty hread
      rw [hwork]
      rfl
  | misplaced hread hfilled hbase =>
      rw [work_of_data hread hfilled, list_eq, bind_of_error (chooseBase_of_error hbase)]
      rfl
  | unreadSymbols hplaced hpath hload hfault =>
      rw [work_of_placed hplaced, bind_of_error (loadSymbols_of_fault hpath hload hfault)]
      rfl
  | badSymbols hplaced hpath hload he =>
      obtain ⟨message, hfails⟩ := loadSymbols_of_error hpath hload he
      rw [work_of_placed hplaced, bind_of_error hfails]
      rfl
  | delivered hplaced hnamed hdelivery =>
      rw [work_of_placed hplaced, bind_of_ok (loadSymbols_of_named hnamed)]
      exact finish_of_delivery hdelivery

end

/-- What a command line comes to. -/
def ComesTo (parse : Parser Values) (host : Host) (disk : Disk) (words : List RawText) :
    Verdict → Prop :=
  parse.ComesTo disk words fun values => Course values host.channel disk

/-- An error of the system about a symbol file is one of reading it. -/
theorem unread_of_load {disk : Disk} {path : Path} {fault : SystemFault}
    (h : SymbolFile.load disk path = .error (.system fault)) : Unread disk path fault := by
  unfold SymbolFile.load at h
  unfold Unread
  cases hread : disk.read path with
  | error e =>
      rw [hread] at h
      cases h
      exact Or.inl rfl
  | ok contents =>
      obtain ⟨bytes, e⟩ := contents
      rw [hread] at h
      cases e with
      | some e =>
          cases h
          exact Or.inr ⟨bytes, rfl⟩
      | none =>
          dsimp only at h
          repeat' split at h
          all_goals cases h

section

variable {values : Values} {channel : Channel} {disk : Disk} {v : Verdict}

theorem Unread.false_of_found {path : Path} {fault : SystemFault} (hfound : disk.Found path)
    (hdisk : ∀ device, Node.device device ∉ disk.nodes) (h : Unread disk path fault) : False := by
  rcases hfound.read_cases with ⟨bytes, hbytes⟩ | ⟨device, hdevice, -⟩
  · rcases h with hread | ⟨data, hread⟩
    · cases hread.symm.trans hbytes
    · cases hread.symm.trans hbytes
  · exact hdisk device hdevice

theorem Unread.not_ofNoPath {path : Path} {fault : SystemFault} (hfound : disk.Found path)
    (h : Unread disk path fault) : ¬fault.OfNoPath := by
  rcases h with hread | ⟨data, hread⟩
  · exact hfound.not_ofNoPath (b := []) (Or.inl hread)
  · exact hfound.not_ofNoPath (Or.inr hread)

/-- An unread file is the image or the symbol file, which both have been found. -/
theorem Course.exists_unread {fault : SystemFault}
    (h : Course values channel disk (.unread fault)) :
    ∃ path ∈ values.reads, Unread disk path fault := by
  cases h with
  | unread hread => exact ⟨_, List.mem_cons_self, hread⟩
  | unreadSymbols _ hpath hload _ =>
      have hmem : _ ∈ values.symbols.toList := Option.mem_toList.mpr hpath
      exact ⟨_, List.mem_cons_of_mem _ hmem, unread_of_load hload⟩
  | delivered _ _ hdelivery => cases hdelivery

theorem Course.not_ofNoPath {fault : SystemFault}
    (hfound : ∀ path ∈ values.reads, disk.Found path)
    (htyped : ∀ path ∈ values.writes, path.Typed) (h : Course values channel disk v)
    (hv : v.fault? = some fault) : ¬fault.OfNoPath := by
  cases v with
  | unread fault' =>
      cases hv
      obtain ⟨path, hpath, hread⟩ := h.exists_unread
      exact hread.not_ofNoPath (hfound path hpath)
  | unwritten fault' =>
      cases hv
      cases h with
      | delivered _ _ hdelivery =>
          cases hdelivery with
          | unwritten houtput hwrite =>
              have hmem : _ ∈ values.output.toList := Option.mem_toList.mpr houtput
              exact Disk.not_ofNoPath_of_write (htyped _ hmem).inWords hwrite
  | _ => cases hv

end

theorem judgedBy_comesTo {parse : Parser Values} {disk : Disk} {words : List RawText}
    (hparse : parse.Documented Values.reads Values.writes disk words) (host : Host) :
    (run parse host disk words).JudgedBy disk (ComesTo parse host disk words) := by
  refine Parser.judgedBy_comesTo hparse fun values haccepted => ?_
  have hfound := hparse.found values haccepted
  refine Run.judgedBy (exists_course values host.channel disk) ?_ ?_ ?_
  · intro v hv
    exact run_ending (work_of_course (w := ⟨disk, host.channel, [], []⟩) hv) _ _ _
  · intro hdisk fault hv
    obtain ⟨path, hpath, hread⟩ := hv.exists_unread
    exact hread.false_of_found (hfound path hpath) hdisk
  · intro v fault hv
    exact hv.not_ofNoPath hfound (hparse.typed values haccepted)

end DisassembleTool

/-! ## Both tools -/

end RomKit
