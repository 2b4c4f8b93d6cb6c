import RomKit.Files.Disk

/-!
# What writing a file changes

A path leads to a spot: a node, or a free name in a directory. Writing there sets
the contents of a file, makes a file under the free name, or hands the bytes to a
device, which leaves the disk as it is. No directory and no link is touched but for
the one new entry. Every path therefore leads where it led, except that the free
name now is the new file (`locate_put`), and a path that led nowhere still does.

So one spot is all that changes: it reads as written (`read_put`), and what lies
elsewhere reads as before (`read_put_elsewhere`).
-/

namespace RomKit

namespace Disk

variable {d : Disk}

theorem root_lt (d : Disk) : root < d.nodes.length :=
  Nat.lt_of_le_of_lt (Nat.zero_le _) d.placed

theorem lt_of_node? {i : NodeId} {node : Node} (h : d.node? i = some node) :
    i < d.nodes.length :=
  (List.getElem?_eq_some_iff.mp h).1

theorem linkStart_lt {i : NodeId} (h : i < d.nodes.length) (target : List UInt8) :
    linkStart i target < d.nodes.length := by
  unfold linkStart
  split
  · exact d.root_lt
  · exact h

section

variable {i j parent : NodeId} {entries : List (FileName × NodeId)} {name : FileName}

theorem parent_lt (h : d.node? i = some (.directory parent entries)) :
    parent < d.nodes.length :=
  d.closed _ (List.mem_of_getElem? h) _ List.mem_cons_self

theorem entry_lt (h : d.node? i = some (.directory parent entries))
    (hj : entries.lookup name = some j) : j < d.nodes.length := by
  obtain ⟨before, after, rfl, -⟩ := List.lookup_eq_some_iff.mp hj
  refine d.closed _ (List.mem_of_getElem? h) _ (List.mem_cons_of_mem _ ?_)
  exact List.mem_map.mpr ⟨(name, j), List.mem_append_right _ List.mem_cons_self, rfl⟩

/-! ## Where a walk ends -/

/-- The spot is a node of the disk, or a name that is free in one of its directories. -/
def Has (d : Disk) : Spot → Prop
  | .node i => i < d.nodes.length
  | .vacant i name => d.step i name = .free

/-- A step leads to a node of the disk, if it leads to one. -/
def Step.Inside (d : Disk) : Step → Prop
  | .into j | .through j _ => j < d.nodes.length
  | .free | .stop _ => True

theorem inside_enter (hi : i < d.nodes.length) (hj : j < d.nodes.length) :
    (d.enter i j).Inside d := by
  unfold enter
  split
  · exact linkStart_lt hi _
  · exact hj

theorem inside_step (d : Disk) (i : NodeId) (name : FileName) :
    (d.step i name).Inside d := by
  unfold step
  split
  · trivial
  · next parent entries hnode =>
    split
    · trivial
    split
    · exact lt_of_node? hnode
    split
    · exact parent_lt hnode
    split
    · trivial
    · next j hj => exact inside_enter (lt_of_node? hnode) (entry_lt hnode hj)
  · trivial

/-- A name is free in a directory that has no entry for it. -/
theorem directory_of_free (h : d.step i name = .free) :
    ∃ parent entries, d.node? i = some (.directory parent entries) ∧ entries.lookup name = none
      ∧ ¬nameLimit < name.length ∧ ¬(name = [] ∨ name = selfName) ∧ ¬name = parentName := by
  unfold step at h
  split at h
  · cases h
  · next parent entries hnode =>
    split at h
    · cases h
    next hlong =>
    split at h
    · cases h
    next hself =>
    split at h
    · cases h
    next hparent =>
    split at h
    · next hfree => exact ⟨parent, entries, hnode, hfree, hlong, hself, hparent⟩
    · next j hj =>
      unfold enter at h
      split at h <;> cases h
  · cases h

end

theorem has_walkWith {follow : NodeId → List FileName → Except SystemError Spot}
    (hfollow : ∀ i names spot, i < d.nodes.length → follow i names = .ok spot → d.Has spot)
    {names : List FileName} : ∀ {i : NodeId} {spot : Spot}, i < d.nodes.length →
    d.walkWith follow i names = .ok spot → d.Has spot := by
  induction names with
  | nil =>
      intro i spot hi h
      cases h
      exact hi
  | cons name names ih =>
      intro i spot hi h
      have hinside := d.inside_step i name
      unfold walkWith at h
      cases hstep : d.step i name with
      | into j =>
          rw [hstep] at h hinside
          exact ih hinside h
      | through j more =>
          rw [hstep] at h hinside
          exact hfollow _ _ _ hinside h
      | free =>
          rw [hstep] at h
          dsimp only at h
          split at h
          · cases h
            exact hstep
          · cases h
      | stop e =>
          rw [hstep] at h
          cases h

theorem has_walk (links : Nat) : ∀ (i : NodeId) (names : List FileName) (spot : Spot),
    i < d.nodes.length → d.walk links i names = .ok spot → d.Has spot := by
  induction links with
  | zero =>
      refine fun i names spot hi h => has_walkWith (fun _ _ _ _ hfollow => ?_) hi h
      cases hfollow
  | succ links ih => exact fun i names spot hi h => has_walkWith ih hi h

theorem startOf_lt (d : Disk) (root : PathRoot) : d.startOf root < d.nodes.length := by
  cases root with
  | relative => exact d.placed
  | slash => exact d.root_lt
  | doubleSlash => exact d.root_lt

theorem locateAlong_eq_ok_iff {root : PathRoot} {parts : List RawText} {text : RawText}
    {spot : Spot} :
    d.locateAlong root parts text = .ok spot
      ↔ (∃ bytes, Utf8.encodeName text = .ok bytes ∧ 0 ∉ bytes ∧ bytes ≠ []
          ∧ bytes.length ≤ pathLimit)
        ∧ d.walk linkLimit (d.startOf root) (parts.map nameOf) = .ok spot := by
  unfold locateAlong
  cases Utf8.encodeName text with
  | error fault => simp
  | ok bytes =>
      dsimp only
      by_cases hzero : 0 ∈ bytes
      · rw [if_pos (by simpa using hzero)]
        simp [hzero]
      rw [if_neg (by simpa using hzero)]
      by_cases hempty : bytes = []
      · rw [if_pos hempty]
        simp [hempty]
      rw [if_neg hempty]
      by_cases hlong : pathLimit < bytes.length
      · rw [if_pos hlong]
        simp [Nat.not_le.mpr hlong]
      rw [if_neg hlong]
      cases d.walk linkLimit (d.startOf root) (parts.map nameOf) with
      | error e => simp
      | ok found => simp [hzero, hempty, Nat.not_lt.mp hlong]

theorem has_locateAlong {root : PathRoot} {parts : List RawText} {text : RawText} {spot : Spot}
    (h : d.locateAlong root parts text = .ok spot) : d.Has spot :=
  has_walk _ _ _ _ (d.startOf_lt root) (locateAlong_eq_ok_iff.mp h).2

theorem has_locate {path : Path} {spot : Spot} (h : d.locate path = .ok spot) : d.Has spot :=
  has_locateAlong h

/-! ## Writing at a spot -/

/-- What is at the spot takes the bytes. -/
def takes (d : Disk) (bytes : List UInt8) : Spot → Bool
  | .vacant _ _ => true
  | .node i =>
    match d.node? i with
    | some (.file _) => true
    | some (.device device) =>
      device.refusal.isNone && (bytes.isEmpty || device.writeError.isNone)
    | _ => false

/-- The disk with the bytes at a spot. -/
def put (d : Disk) (bytes : List UInt8) : Spot → Disk
  | .vacant directory name => d.addFile directory name bytes
  | .node i =>
    match d.node? i with
    | some (.file _) => d.setFile i bytes
    | _ => d

theorem put_of_file {i : NodeId} {old : List UInt8} (h : d.node? i = some (.file old))
    (bytes : List UInt8) : d.put bytes (.node i) = d.setFile i bytes := by
  unfold put
  dsimp only
  rw [h]

theorem put_of_not_file {i : NodeId} (h : ∀ old, d.node? i ≠ some (.file old))
    (bytes : List UInt8) : d.put bytes (.node i) = d := by
  unfold put
  dsimp only
  split
  · next old hfile => exact absurd hfile (h old)
  · rfl

/-- Writing puts the bytes where they are taken, and fails elsewhere. -/
theorem writeAt_eq_ok_iff {text : RawText} {bytes : List UInt8} {spot : Spot} {d' : Disk} :
    d.writeAt text bytes spot = .ok d' ↔ d.takes bytes spot = true ∧ d.put bytes spot = d' := by
  cases spot with
  | vacant directory name => simp [writeAt, takes, put]
  | node i =>
      unfold writeAt takes put
      dsimp only
      cases d.node? i with
      | none => simp
      | some node =>
          cases node with
          | file old => simp
          | directory parent entries => simp
          | link target => simp
          | device device =>
              obtain ⟨refusal, contents, readError, writeError⟩ := device
              cases refusal with
              | some e => simp
              | none =>
                  by_cases hbytes : bytes = []
                  · simp [hbytes]
                  · cases writeError <;> simp [hbytes]

theorem write_eq_ok_iff {path : Path} {bytes : List UInt8} {d' : Disk} :
    d.write path bytes = .ok d'
      ↔ ∃ spot, d.locate path = .ok spot ∧ d.takes bytes spot = true ∧ d.put bytes spot = d' := by
  unfold write
  cases d.locate path with
  | error fault => simp
  | ok spot =>
      dsimp only
      rw [writeAt_eq_ok_iff]
      constructor
      · rintro ⟨htakes, hput⟩
        exact ⟨spot, rfl, htakes, hput⟩
      · rintro ⟨spot', hspot, hboth⟩
        cases hspot
        exact hboth

/-- A path leads to a spot where bytes can be written. -/
def Writable (d : Disk) (path : Path) (bytes : List UInt8) : Prop :=
  ∃ spot, d.locate path = .ok spot ∧ d.takes bytes spot = true

theorem exists_write_iff {path : Path} {bytes : List UInt8} :
    (∃ d', d.write path bytes = .ok d') ↔ d.Writable path bytes := by
  simp only [write_eq_ok_iff]
  constructor
  · rintro ⟨d', spot, hspot, htakes, -⟩
    exact ⟨spot, hspot, htakes⟩
  · rintro ⟨spot, hspot, htakes⟩
    exact ⟨_, spot, hspot, htakes, rfl⟩

/-! ## The nodes afterwards -/

theorem node?_setFile {i : NodeId} {node : Node} (h : d.node? i = some node) (bytes : List UInt8)
    (j : NodeId) :
    (d.setFile i bytes).node? j = if j = i then some (.file bytes) else d.node? j := by
  show (d.nodes.set i (.file bytes))[j]? = _
  rw [List.getElem?_set]
  by_cases hj : j = i
  · rw [if_pos hj.symm, if_pos hj, if_pos (lt_of_node? h)]
  · rw [if_neg (Ne.symm hj), if_neg hj]
    rfl

theorem node?_addFile (directory : NodeId) (name : FileName) (bytes : List UInt8) {j : NodeId}
    (hj : j < d.nodes.length) :
    (d.addFile directory name bytes).node? j
      = if j = directory then (d.node? j).map (Node.addEntry (name, d.nodes.length))
        else d.node? j := by
  show (d.nodes.modify directory (Node.addEntry (name, d.nodes.length)) ++ [_])[j]? = _
  rw [List.getElem?_append_left (by rw [List.length_modify]; exact hj), List.getElem?_modify]
  by_cases hjd : j = directory
  · simp [hjd, node?]
  · simp [hjd, Ne.symm hjd, node?]

theorem node?_addFile_new (d : Disk) (directory : NodeId) (name : FileName) (bytes : List UInt8) :
    (d.addFile directory name bytes).node? d.nodes.length = some (.file bytes) := by
  show (d.nodes.modify directory (Node.addEntry (name, d.nodes.length)) ++ [_])[_]? = _
  rw [List.getElem?_append_right (Nat.le_of_eq (List.length_modify _ _ _)),
    List.length_modify, Nat.sub_self]
  rfl

/-! ## Where paths lead afterwards -/

/-- Where the path to a spot leads after a file was written at another: a free name may have become
the next node. -/
def settle (d : Disk) : (written spot : Spot) → Spot
  | .vacant directory name, spot =>
    if spot = .vacant directory name then .node d.nodes.length else spot
  | .node _, spot => spot

theorem settle_of_ne {written spot : Spot} (h : spot ≠ written) :
    d.settle written spot = spot := by
  cases written with
  | node i => rfl
  | vacant directory name => exact if_neg h

theorem settle_vacant (d : Disk) (directory : NodeId) (name : FileName) :
    d.settle (.vacant directory name) (.vacant directory name) = .node d.nodes.length :=
  if_pos rfl

/-- A walk ends where it ended before, and where it failed it fails. -/
def Leads (d : Disk) (written : Spot) : (before after : Except SystemError Spot) → Prop
  | .ok spot, after => after = .ok (d.settle written spot)
  | .error _, after => ∃ e, after = .error e

section SetFile

variable {i : NodeId} {old : List UInt8}

theorem enter_setFile (h : d.node? i = some (.file old)) (bytes : List UInt8) (j k : NodeId) :
    (d.setFile i bytes).enter j k = d.enter j k := by
  unfold enter
  rw [node?_setFile h]
  by_cases hk : k = i
  · rw [if_pos hk, hk, h]
  · rw [if_neg hk]

/-- The contents of files do not matter for a step. -/
theorem step_setFile (h : d.node? i = some (.file old)) (bytes : List UInt8) (j : NodeId)
    (name : FileName) : (d.setFile i bytes).step j name = d.step j name := by
  unfold step
  rw [node?_setFile h]
  by_cases hj : j = i
  · rw [if_pos hj, hj, h]
  · rw [if_neg hj]
    simp only [enter_setFile h]

theorem walkWith_setFile (h : d.node? i = some (.file old)) (bytes : List UInt8)
    (follow : NodeId → List FileName → Except SystemError Spot) (names : List FileName) :
    ∀ j, (d.setFile i bytes).walkWith follow j names = d.walkWith follow j names := by
  induction names with
  | nil => exact fun _ => rfl
  | cons name names ih =>
      intro j
      unfold walkWith
      rw [step_setFile h]
      simp only [ih]

theorem walk_setFile (h : d.node? i = some (.file old)) (bytes : List UInt8) (links : Nat) :
    (d.setFile i bytes).walk links = d.walk links := by
  induction links with
  | zero =>
      funext j names
      exact walkWith_setFile h bytes _ names j
  | succ links ih =>
      funext j names
      show (d.setFile i bytes).walkWith ((d.setFile i bytes).walk links) j names = _
      rw [ih]
      exact walkWith_setFile h bytes _ names j

end SetFile

section AddFile

variable {directory parent : NodeId} {entries : List (FileName × NodeId)} {name : FileName}

/-- A new entry under a free name is found under this name only. -/
theorem lookup_addEntry (hfree : entries.lookup name = none) (other : FileName) (n : NodeId) :
    (entries ++ [(name, n)]).lookup other
      = if other = name then some n else entries.lookup other := by
  rw [List.lookup_append]
  by_cases hother : other = name
  · subst hother
    rw [hfree, if_pos rfl]
    simp
  · rw [if_neg hother, List.lookup_cons, beq_false_of_ne hother]
    simp

theorem enter_addFile (bytes : List UInt8) (i : NodeId) {j : NodeId} (hj : j < d.nodes.length) :
    (d.addFile directory name bytes).enter i j = d.enter i j := by
  unfold enter
  rw [node?_addFile _ name bytes hj]
  by_cases hjd : j = directory
  · rw [if_pos hjd]
    cases d.node? j with
    | none => rfl
    | some node => cases node <;> rfl
  · rw [if_neg hjd]

theorem enter_addFile_new (d : Disk) (directory : NodeId) (name : FileName) (bytes : List UInt8)
    (i : NodeId) :
    (d.addFile directory name bytes).enter i d.nodes.length = .into d.nodes.length := by
  unfold enter
  rw [node?_addFile_new]

/-- The step along the name of a new file leads to it. -/
theorem step_addFile_new (hfree : d.step directory name = .free) (bytes : List UInt8) :
    (d.addFile directory name bytes).step directory name = .into d.nodes.length := by
  obtain ⟨parent, entries, hnode, hnone, hlong, hself, hparent⟩ := directory_of_free hfree
  have hnode' : (d.addFile directory name bytes).node? directory
      = some (.directory parent (entries ++ [(name, d.nodes.length)])) := by
    rw [node?_addFile _ name bytes (lt_of_node? hnode), if_pos rfl, hnode]
    rfl
  unfold step
  rw [hnode']
  dsimp only
  rw [if_neg hlong, if_neg hself, if_neg hparent, lookup_addEntry hnone, if_pos rfl]
  exact enter_addFile_new d directory name bytes directory

/-- No other step changes. -/
theorem step_addFile_of_ne (hfree : d.step directory name = .free) (bytes : List UInt8)
    {i : NodeId} (hi : i < d.nodes.length) {other : FileName}
    (hne : ¬(i = directory ∧ other = name)) :
    (d.addFile directory name bytes).step i other = d.step i other := by
  unfold step
  rw [node?_addFile _ name bytes hi]
  by_cases hid : i = directory
  · obtain ⟨parent, entries, hnode, hnone, -⟩ := directory_of_free hfree
    subst hid
    rw [if_pos rfl, hnode]
    refine ite_congr rfl (fun _ => rfl) fun _ => ite_congr rfl (fun _ => rfl) fun _ =>
      ite_congr rfl (fun _ => rfl) fun _ => ?_
    rw [lookup_addEntry hnone, if_neg fun h => hne ⟨rfl, h⟩]
    cases hentry : entries.lookup other with
    | none => rfl
    | some j => exact enter_addFile bytes i (entry_lt hnode hentry)
  · rw [if_neg hid]
    cases hother : d.node? i with
    | none => rfl
    | some node =>
        cases node with
        | file old => rfl
        | link target => rfl
        | device device => rfl
        | directory p es =>
            refine ite_congr rfl (fun _ => rfl) fun _ => ite_congr rfl (fun _ => rfl) fun _ =>
              ite_congr rfl (fun _ => rfl) fun _ => ?_
            cases hentry : es.lookup other with
            | none => rfl
            | some j => exact enter_addFile bytes i (entry_lt hother hentry)

/-- A walk meets the new file at its end, or it fails as it failed before. -/
theorem walkWith_addFile (hfree : d.step directory name = .free) (bytes : List UInt8)
    {follow follow' : NodeId → List FileName → Except SystemError Spot}
    (hfollow : ∀ i names, i < d.nodes.length →
      d.Leads (.vacant directory name) (follow i names) (follow' i names))
    (names : List FileName) : ∀ i, i < d.nodes.length →
      d.Leads (.vacant directory name) (d.walkWith follow i names)
        ((d.addFile directory name bytes).walkWith follow' i names) := by
  induction names with
  | nil =>
      intro i _
      exact congrArg Except.ok (settle_of_ne Spot.noConfusion).symm
  | cons other names ih =>
      intro i hi
      have hinside := d.inside_step i other
      unfold walkWith
      by_cases hnew : i = directory ∧ other = name
      · obtain ⟨rfl, rfl⟩ := hnew
        rw [hfree, step_addFile_new hfree]
        cases names with
        | nil => exact congrArg Except.ok (if_pos rfl).symm
        | cons next later =>
            -- the new file is no directory
            refine ⟨.notDirectory, ?_⟩
            have hstop : (d.addFile i other bytes).step d.nodes.length next
                = .stop .notDirectory := by
              unfold step
              rw [node?_addFile_new]
            dsimp only
            unfold walkWith
            rw [hstop]
      · rw [step_addFile_of_ne hfree bytes hi hnew]
        cases hstep : d.step i other with
        | into j =>
            rw [hstep] at hinside
            exact ih j hinside
        | through j more =>
            rw [hstep] at hinside
            exact hfollow j _ hinside
        | stop e => exact ⟨e, rfl⟩
        | free =>
            dsimp only
            split
            · refine congrArg Except.ok (settle_of_ne ?_).symm
              intro heq
              exact hnew (Spot.vacant.inj heq)
            · exact ⟨_, rfl⟩

theorem walk_addFile (hfree : d.step directory name = .free) (bytes : List UInt8) (links : Nat) :
    ∀ i names, i < d.nodes.length →
      d.Leads (.vacant directory name) (d.walk links i names)
        ((d.addFile directory name bytes).walk links i names) := by
  induction links with
  | zero =>
      refine fun i names hi => walkWith_addFile hfree bytes (fun _ _ _ => ?_) names i hi
      exact ⟨.tooManyLinks, rfl⟩
  | succ links ih => exact fun i names hi => walkWith_addFile hfree bytes ih names i hi

end AddFile

section

variable {written spot : Spot} {path other : Path} {text : RawText} {bytes more : List UInt8}

theorem walk_put (hwritten : d.Has written) (bytes : List UInt8) (links : Nat) {i : NodeId}
    (hi : i < d.nodes.length) (names : List FileName) :
    d.Leads written (d.walk links i names) ((d.put bytes written).walk links i names) := by
  cases written with
  | vacant directory name => exact walk_addFile hwritten bytes links i names hi
  | node j =>
      have hwalk : (d.put bytes (.node j)).walk links = d.walk links := by
        unfold put
        dsimp only
        split
        · next old hfile => exact walk_setFile hfile bytes links
        · rfl
      rw [hwalk]
      cases d.walk links i names with
      | ok spot => rfl
      | error e => exact ⟨e, rfl⟩

theorem startOf_put (d : Disk) (bytes : List UInt8) (written : Spot) (root : PathRoot) :
    (d.put bytes written).startOf root = d.startOf root := by
  have hwork : (d.put bytes written).work = d.work := by
    cases written with
    | vacant directory name => rfl
    | node i =>
        unfold put
        dsimp only
        split <;> rfl
  cases root with
  | relative => exact hwork
  | slash => rfl
  | doubleSlash => rfl

/-- **A path leads where it led**, but to the new file in place of a free name. -/
theorem locate_put (hwritten : d.Has written) (bytes : List UInt8)
    (h : d.locate other = .ok spot) :
    (d.put bytes written).locate other = .ok (d.settle written spot) := by
  obtain ⟨htext, hwalk⟩ := locateAlong_eq_ok_iff.mp h
  refine locateAlong_eq_ok_iff.mpr ⟨htext, ?_⟩
  have hleads := walk_put hwritten bytes linkLimit (d.startOf_lt other.root)
    (other.parts.map nameOf)
  rw [hwalk] at hleads
  rw [startOf_put]
  exact hleads

/-- A path that led nowhere still does. -/
theorem locate_put_of_error (hwritten : d.Has written) (bytes : List UInt8) {fault : SystemFault}
    (h : d.locate other = .error fault) :
    ∃ fault', (d.put bytes written).locate other = .error fault' := by
  have hleads := walk_put hwritten bytes linkLimit (d.startOf_lt other.root)
    (other.parts.map nameOf)
  cases hafter : (d.put bytes written).locate other with
  | error fault' => exact ⟨fault', rfl⟩
  | ok spot =>
      obtain ⟨htext, hwalk⟩ := locateAlong_eq_ok_iff.mp hafter
      rw [startOf_put] at hwalk
      cases hbefore : d.walk linkLimit (d.startOf other.root) (other.parts.map nameOf) with
      | error e =>
          rw [hbefore, hwalk] at hleads
          obtain ⟨e', he'⟩ := hleads
          cases he'
      | ok found =>
          have hfound : d.locate other = .ok found :=
            locateAlong_eq_ok_iff.mpr ⟨htext, hbefore⟩
          rw [hfound] at h
          cases h

/-! ## What is read afterwards -/

/-- The spot is a device. -/
def isDevice (d : Disk) (spot : Spot) : Bool :=
  d.kind? spot == some .device

/-- A device takes bytes, and the disk stays as it is. -/
theorem put_of_isDevice (h : d.isDevice spot = true) (bytes : List UInt8) :
    d.put bytes spot = d := by
  cases spot with
  | vacant directory name => cases h
  | node i =>
      unfold put
      dsimp only
      split
      · next old hfile =>
        unfold isDevice kind? at h
        dsimp only at h
        rw [hfile] at h
        cases h
      · rfl

/-- Bytes that are taken elsewhere make the contents of a file. -/
theorem file_of_takes (h : d.takes bytes spot = true) (hdevice : d.isDevice spot = false) :
    (∃ directory name, spot = .vacant directory name)
      ∨ ∃ i old, spot = .node i ∧ d.node? i = some (.file old) := by
  cases spot with
  | vacant directory name => exact Or.inl ⟨directory, name, rfl⟩
  | node i =>
      unfold takes at h
      unfold isDevice kind? at hdevice
      dsimp only at h hdevice
      cases hnode : d.node? i with
      | none =>
          rw [hnode] at h
          cases h
      | some node =>
          rw [hnode] at h hdevice
          cases node with
          | file old => exact Or.inr ⟨i, old, rfl, hnode⟩
          | directory parent entries => cases h
          | link target => cases h
          | device device => cases hdevice

/-- **What is written to a file is read from it.** -/
theorem readAt_put (htakes : d.takes bytes spot = true) (hdevice : d.isDevice spot = false)
    (text : RawText) :
    (d.put bytes spot).readAt text (d.settle spot spot) = .ok ⟨bytes, none⟩ := by
  rcases file_of_takes htakes hdevice with ⟨directory, name, rfl⟩ | ⟨i, old, rfl, hfile⟩
  · rw [settle_vacant]
    unfold readAt put
    dsimp only
    rw [node?_addFile_new]
  · rw [put_of_file hfile]
    unfold settle readAt
    dsimp only
    rw [node?_setFile hfile, if_pos rfl]

/-- A spot elsewhere holds what it held; a directory may have one more entry. -/
theorem node?_put_elsewhere (bytes : List UInt8) {i : NodeId} (hi : i < d.nodes.length)
    (hne : Spot.node i ≠ written) :
    (d.put bytes written).node? i = d.node? i
      ∨ ∃ entry, (d.put bytes written).node? i = (d.node? i).map (Node.addEntry entry) := by
  cases written with
  | vacant directory name =>
      have hnode := node?_addFile directory name bytes hi
      by_cases hid : i = directory
      · rw [if_pos hid] at hnode
        exact Or.inr ⟨_, hnode⟩
      · rw [if_neg hid] at hnode
        exact Or.inl hnode
  | node j =>
      refine Or.inl ?_
      unfold put
      dsimp only
      split
      · next old hfile =>
        rw [node?_setFile hfile, if_neg fun hij => hne (congrArg Spot.node hij)]
      · rfl

theorem readAt_put_elsewhere (hspot : d.Has spot) (hne : spot ≠ written) (bytes : List UInt8)
    (text : RawText) : (d.put bytes written).readAt text spot = d.readAt text spot := by
  cases spot with
  | vacant directory name => rfl
  | node i =>
      unfold readAt
      dsimp only
      rcases node?_put_elsewhere bytes hspot hne with hnode | ⟨entry, hnode⟩
      · rw [hnode]
      · rw [hnode]
        cases d.node? i with
        | none => rfl
        | some node => cases node <;> rfl

theorem takes_put_elsewhere (hspot : d.Has spot) (hne : spot ≠ written) (bytes more : List UInt8) :
    (d.put bytes written).takes more spot = d.takes more spot := by
  cases spot with
  | vacant directory name => rfl
  | node i =>
      unfold takes
      dsimp only
      rcases node?_put_elsewhere bytes hspot hne with hnode | ⟨entry, hnode⟩
      · rw [hnode]
      · rw [hnode]
        cases d.node? i with
        | none => rfl
        | some node => cases node <;> rfl

/-- A spot takes after a write what it took before. -/
theorem takes_put (htakes : d.takes bytes written = true) (hspot : d.Has spot)
    (more : List UInt8) :
    (d.put bytes written).takes more (d.settle written spot) = d.takes more spot := by
  by_cases hne : spot = written
  · subst hne
    cases hdevice : d.isDevice spot with
    | true =>
        rw [put_of_isDevice hdevice]
        cases spot with
        | vacant directory name => cases hdevice
        | node i => rfl
    | false =>
        rcases file_of_takes htakes hdevice with ⟨directory, name, rfl⟩ | ⟨i, old, rfl, hfile⟩
        · rw [settle_vacant]
          unfold takes put
          dsimp only
          rw [node?_addFile_new]
        · rw [put_of_file hfile]
          unfold settle takes
          dsimp only
          rw [node?_setFile hfile, if_pos rfl, hfile]
  · rw [settle_of_ne hne, takes_put_elsewhere hspot hne]

/-- What a second write does, told of the disk before the first. -/
theorem write_put_eq_ok_iff (hwritten : d.Has written) (htakes : d.takes bytes written = true)
    {d' : Disk} :
    (d.put bytes written).write other more = .ok d'
      ↔ ∃ spot, d.locate other = .ok spot ∧ d.takes more spot = true
        ∧ (d.put bytes written).put more (d.settle written spot) = d' := by
  rw [write_eq_ok_iff]
  cases hlocate : d.locate other with
  | error fault =>
      obtain ⟨fault', hafter⟩ := locate_put_of_error hwritten bytes hlocate
      rw [hafter]
      constructor <;> (rintro ⟨spot, hspot, -⟩; cases hspot)
  | ok spot =>
      have htaken := takes_put htakes (has_locate hlocate) more
      rw [locate_put hwritten bytes hlocate]
      constructor
      · rintro ⟨spot', hspot', htakes', hput⟩
        cases hspot'
        exact ⟨spot, rfl, htaken ▸ htakes', hput⟩
      · rintro ⟨spot', hspot', htakes', hput⟩
        cases hspot'
        exact ⟨_, rfl, htaken.trans htakes', hput⟩

/-- A second write succeeds if it would have succeeded as the first. -/
theorem exists_write_put_iff (hwritten : d.Has written) (htakes : d.takes bytes written = true) :
    (∃ d', (d.put bytes written).write other more = .ok d') ↔ d.Writable other more := by
  simp only [write_put_eq_ok_iff hwritten htakes]
  constructor
  · rintro ⟨d', spot, hspot, htaken, -⟩
    exact ⟨spot, hspot, htaken⟩
  · rintro ⟨spot, hspot, htaken⟩
    exact ⟨_, spot, hspot, htaken, rfl⟩

/-- The place of a new file is none that there was before. -/
theorem settle_ne (hspot : d.Has spot) (hne : spot ≠ written) :
    d.settle written written ≠ spot := by
  cases written with
  | node i => exact Ne.symm hne
  | vacant directory name =>
      rw [settle_vacant]
      rintro rfl
      exact Nat.lt_irrefl _ hspot

theorem settle_of_isDevice (h : d.isDevice written = true) (spot : Spot) :
    d.settle written spot = spot := by
  cases written with
  | node i => rfl
  | vacant directory name => cases h

/-- What is written elsewhere than to a device makes no device. -/
theorem isDevice_put (htakes : d.takes bytes spot = true) (hdevice : d.isDevice spot = false) :
    (d.put bytes spot).isDevice (d.settle spot spot) = false := by
  rcases file_of_takes htakes hdevice with ⟨directory, name, rfl⟩ | ⟨i, old, rfl, hfile⟩
  · rw [settle_vacant]
    unfold isDevice kind? put
    dsimp only
    rw [node?_addFile_new]
    rfl
  · rw [put_of_file hfile]
    unfold settle isDevice kind?
    dsimp only
    rw [node?_setFile hfile, if_pos rfl]
    rfl

theorem read_of_locate (h : d.locate path = .ok spot) : d.read path = d.readAt path.text spot := by
  unfold read
  rw [h]

/-- **A file reads as written.** -/
theorem read_of_write {d' : Disk} (h : d.write path bytes = .ok d')
    (hspot : d.locate path = .ok spot) (hdevice : d.isDevice spot = false) :
    d'.read path = .ok ⟨bytes, none⟩ := by
  obtain ⟨spot', hspot', htakes, rfl⟩ := write_eq_ok_iff.mp h
  cases hspot.symm.trans hspot'
  rw [read_of_locate (locate_put (has_locate hspot) bytes hspot)]
  exact readAt_put htakes hdevice _

/-- A path to another spot reads as before. -/
theorem read_put_elsewhere (hwritten : d.Has written) (hspot : d.locate path = .ok spot)
    (hne : spot ≠ written) (bytes : List UInt8) :
    (d.put bytes written).read path = d.read path := by
  rw [read_of_locate hspot, read_of_locate (locate_put hwritten bytes hspot), settle_of_ne hne]
  exact readAt_put_elsewhere (has_locate hspot) hne bytes _

/-- A device gives what it gave, whatever is written. -/
theorem read_put_of_isDevice (hwritten : d.Has written) (hspot : d.locate path = .ok spot)
    (hdevice : d.isDevice spot = true) (bytes : List UInt8) :
    (d.put bytes written).read path = d.read path := by
  by_cases hne : spot = written
  · rw [← hne, put_of_isDevice hdevice]
  · exact read_put_elsewhere hwritten hspot hne bytes

/-- The second of two writes to a file is read. -/
theorem read_put_put (hspot : d.locate path = .ok spot) (htakes : d.takes bytes spot = true)
    (hdevice : d.isDevice spot = false) (hmore : d.takes more spot = true) :
    ((d.put bytes spot).put more (d.settle spot spot)).read path = .ok ⟨more, none⟩ := by
  have hbetween := locate_put (has_locate hspot) bytes hspot
  rw [read_of_locate (locate_put (has_locate hbetween) more hbetween)]
  refine readAt_put ?_ (isDevice_put htakes hdevice) _
  rw [takes_put htakes (has_locate hspot), hmore]

/-! ## Disks that stay as they are -/

/-- Writing the bytes at the spot would change nothing. -/
def Keeps (d : Disk) (bytes : List UInt8) : Spot → Prop
  | .vacant _ _ => False
  | .node i => ∀ old, d.node? i = some (.file old) → old = bytes

theorem ext_of_nodes {d d' : Disk} (hnodes : d.nodes = d'.nodes) (hwork : d.work = d'.work) :
    d = d' := by
  obtain ⟨nodes, work, closed, placed⟩ := d
  obtain ⟨nodes', work', closed', placed'⟩ := d'
  cases hnodes
  cases hwork
  rfl

theorem length_put (d : Disk) (bytes : List UInt8) (spot : Spot) :
    d.nodes.length ≤ (d.put bytes spot).nodes.length := by
  cases spot with
  | vacant directory name =>
      show _ ≤ (d.nodes.modify directory _ ++ [_]).length
      rw [List.length_append, List.length_modify]
      exact Nat.le_add_right _ _
  | node i =>
      unfold put
      dsimp only
      split
      · show _ ≤ (d.nodes.set i _).length
        exact Nat.le_of_eq List.length_set.symm
      · exact Nat.le_refl _

theorem length_put_vacant (d : Disk) (bytes : List UInt8) (directory : NodeId) (name : FileName) :
    (d.put bytes (.vacant directory name)).nodes.length = d.nodes.length + 1 := by
  show (d.nodes.modify directory _ ++ [_]).length = _
  rw [List.length_append, List.length_modify]
  rfl

theorem setFile_eq_self_iff {i : NodeId} {old : List UInt8} (h : d.node? i = some (.file old)) :
    d.setFile i bytes = d ↔ old = bytes := by
  constructor
  · intro heq
    have hnode := node?_setFile h bytes i
    rw [heq, h, if_pos rfl] at hnode
    cases hnode
    rfl
  · rintro rfl
    refine ext_of_nodes ?_ rfl
    obtain ⟨hi, hget⟩ := List.getElem?_eq_some_iff.mp h
    show d.nodes.set i (.file old) = d.nodes
    rw [← hget, List.set_getElem_self]

theorem put_eq_self_iff : d.put bytes spot = d ↔ d.Keeps bytes spot := by
  cases spot with
  | vacant directory name =>
      refine ⟨fun h => ?_, fun h => h.elim⟩
      have hlength := length_put_vacant d bytes directory name
      rw [h] at hlength
      omega
  | node i =>
      by_cases hfile : ∃ old, d.node? i = some (.file old)
      · obtain ⟨old, hfile⟩ := hfile
        rw [put_of_file hfile, setFile_eq_self_iff hfile]
        constructor
        · rintro rfl old' hold'
          cases hfile.symm.trans hold'
          rfl
        · exact fun h => h old hfile
      · have hother : ∀ old, d.node? i ≠ some (.file old) := fun old h => hfile ⟨old, h⟩
        exact ⟨fun _ old h => absurd h (hother old), fun _ => put_of_not_file hother bytes⟩

/-- Of two writes at a spot the second counts. -/
theorem put_put_same :
    (d.put bytes spot).put more (d.settle spot spot) = d ↔ d.Keeps more spot := by
  cases spot with
  | vacant directory name =>
      refine ⟨fun h => ?_, fun h => h.elim⟩
      have hlength := length_put_vacant d bytes directory name
      have hgrows := length_put (d.put bytes (.vacant directory name)) more
        (d.settle (.vacant directory name) (.vacant directory name))
      rw [h] at hgrows
      omega
  | node i =>
      rw [← put_eq_self_iff]
      show (d.put bytes (.node i)).put more (.node i) = d ↔ _
      by_cases hfile : ∃ old, d.node? i = some (.file old)
      · obtain ⟨old, hfile⟩ := hfile
        have hwritten : (d.setFile i bytes).node? i = some (.file bytes) := by
          rw [node?_setFile hfile, if_pos rfl]
        have hlast : (d.setFile i bytes).setFile i more = d.setFile i more :=
          ext_of_nodes (List.set_set _) rfl
        rw [put_of_file hfile, put_of_file hfile, put_of_file hwritten, hlast]
      · rw [put_of_not_file fun old h => hfile ⟨old, h⟩]

/-- Two writes at different spots keep the disk if each does. -/
theorem put_put_ne (hne : spot ≠ written) (hspot : d.Has spot) :
    (d.put bytes written).put more spot = d ↔ d.Keeps bytes written ∧ d.Keeps more spot := by
  rw [← put_eq_self_iff, ← put_eq_self_iff]
  refine ⟨fun h => ?_, fun h => by rw [h.1, h.2]⟩
  have hgrows := length_put d bytes written
  have hgrows' := length_put (d.put bytes written) more spot
  rw [h] at hgrows'
  cases written with
  | vacant directory name =>
      have hnew := length_put_vacant d bytes directory name
      omega
  | node i =>
      cases spot with
      | vacant directory name =>
          have hnew := length_put_vacant (d.put bytes (.node i)) more directory name
          rw [h] at hnew
          omega
      | node j =>
          -- the node of the first write is as it was, since the second leaves it
          have hfirst : d.put bytes (.node i) = d := by
            refine put_eq_self_iff.mpr fun old hfile => ?_
            have hi : i < (d.put bytes (.node i)).nodes.length :=
              Nat.lt_of_lt_of_le (lt_of_node? hfile) hgrows
            rcases node?_put_elsewhere more hi (Ne.symm hne) with hnode | ⟨entry, hnode⟩
            · rw [h, hfile, put_of_file hfile, node?_setFile hfile, if_pos rfl] at hnode
              cases hnode
              rfl
            · rw [h, hfile, put_of_file hfile, node?_setFile hfile, if_pos rfl] at hnode
              cases hnode
              rfl
          rw [hfirst] at h
          exact ⟨hfirst, h⟩

end

end Disk

end RomKit
