import Minicask.Store.Map

/-!
# Power cuts

A power cut leaves every sealed file and, of the active one, any prefix that is at
least as long as what was synced.  What survives of the records is then some prefix
of them all, and the store that opens on it is the map that some prefix of the
calls made.
-/

namespace Minicask

open Replay

/-- What a power cut can leave of the files.  Any hint may go with it. -/
structure Disk.Cut (active : FileId) (disk disk' : Disk) : Prop where
  others : forall id, id ≠ active ->
    disk'.data.lookup id = disk.data.lookup id
  linked : active ∈ disk'.data
  kept : exists n, disk.synced active <= n ∧
    disk'.contents active = (disk.contents active).take n
  settled : disk'.synced active = (disk'.contents active).length
  hints : forall id bytes, disk'.hints.lookup id = some bytes ->
    disk.hints.lookup id = some bytes

/-- Everything there is has been synced. -/
def Disk.Settled (disk : Disk) : Prop :=
  forall id, disk.synced id = (disk.contents id).length

/-!
# What is left of some records
-/

/-- Bytes cut anywhere hold some whole records and part of one. -/
theorem join_cut (rs : List Rec) (n : Nat) :
    exists kept tail, (Rec.join rs).take n = Rec.join kept ++ tail ∧
      kept <+: rs ∧ Torn tail ∧
      forall whole, whole <+: rs -> (Rec.join whole).length <= n ->
        whole <+: kept := by
  induction rs generalizing n with
  | nil =>
      refine ⟨[], [], by simp, List.prefix_refl _, Or.inl rfl, ?_⟩
      intro whole hwhole _
      exact hwhole
  | cons r rs ih =>
      by_cases hn : n < r.bytes.length
      · refine ⟨[], r.bytes.take n, ?_, List.nil_prefix,
          Or.inr ⟨r, List.take_prefix n r.bytes, ?_⟩, ?_⟩
        · rw [Rec.join_cons, List.take_append_of_le_length (Nat.le_of_lt hn)]
          rfl
        · rw [List.length_take]
          omega
        · intro whole hwhole hlength
          cases whole with
          | nil => exact List.nil_prefix
          | cons first rest =>
              have hfirst := (List.cons_prefix_cons.mp hwhole).1
              rw [Rec.join_cons, List.length_append, hfirst] at hlength
              omega
      · rcases ih (n - r.bytes.length) with
          ⟨kept, tail, htake, hstarts, htorn, hmost⟩
        refine ⟨r :: kept, tail, ?_, List.cons_prefix_cons.mpr ⟨rfl, hstarts⟩,
          htorn, ?_⟩
        · rw [Rec.join_cons, List.take_append,
            List.take_of_length_le (Nat.le_of_not_lt hn), htake, Rec.join_cons,
            List.append_assoc]
        · intro whole hwhole hlength
          cases whole with
          | nil => exact List.nil_prefix
          | cons first rest =>
              rcases List.cons_prefix_cons.mp hwhole with ⟨hfirst, hrest⟩
              rw [Rec.join_cons, List.length_append, hfirst] at hlength
              exact List.cons_prefix_cons.mpr
                ⟨hfirst, hmost rest hrest (by omega)⟩

theorem join_mono {rs more : List Rec} (h : rs <+: more) :
    Rec.join rs <+: Rec.join more := by
  rcases h with ⟨rest, rfl⟩
  rw [Rec.join_append]
  exact List.prefix_append _ _

/-- Of two starts of the same records, the one with fewer bytes has fewer
records. -/
theorem prefix_of_join_le {rs whole other : List Rec} (h : whole <+: rs)
    (h' : other <+: rs)
    (hle : (Rec.join whole).length <= (Rec.join other).length) :
    whole <+: other := by
  rcases List.prefix_or_prefix_of_prefix h h' with hstarts | ⟨rest, hrest⟩
  · exact hstarts
  · have hlength := length_le_join rest
    rw [← hrest, Rec.join_append, List.length_append] at hle
    have hnil : rest = [] := List.length_eq_zero_iff.mp (by omega)
    rw [hnil, List.append_nil] at hrest
    exact hrest ▸ List.prefix_refl other

/-!
# What a cut leaves can be opened
-/

theorem Disk.Cut.mem_iff {active : FileId} {disk disk' : Disk}
    (h : Disk.Cut active disk disk') (hactive : active ∈ disk.data)
    (id : FileId) : id ∈ disk'.data ↔ id ∈ disk.data := by
  by_cases heq : id = active
  · rw [heq]
    exact ⟨fun _ => hactive, fun _ => h.linked⟩
  · rw [← AList.lookup_isSome, h.others id heq, AList.lookup_isSome]

theorem Disk.Cut.other {active : FileId} {disk disk' : Disk}
    (h : Disk.Cut active disk disk') {id : FileId} (hne : id ≠ active) :
    disk'.contents id = disk.contents id ∧ disk'.synced id = disk.synced id := by
  rw [Disk.contents, Disk.contents, Disk.synced, Disk.synced, h.others id hne]
  exact ⟨rfl, rfl⟩

/-- Whole records in every file, all of them synced but perhaps the last of the
newest. -/
structure Disk.Firm (disk : Disk) (top : FileId) (chart : Chart) : Prop where
  linked : top ∈ disk.data
  newest : forall id, id ∈ disk.data -> id <= top
  absent : forall id, id ∉ disk.data -> chart id = []
  files : forall id, id ∈ disk.data -> disk.contents id = Rec.join (chart id)
  sealed : forall id, id ≠ top -> disk.synced id = (disk.contents id).length
  hints : forall id bytes, disk.hints.lookup id = some bytes ->
    HintOk disk id (chart id) bytes

theorem Disk.synced_le (disk : Disk) (id : FileId) :
    disk.synced id <= (disk.contents id).length :=
  ((disk.data.lookup id).getD {}).synced_le

/-- Some of the newest file's records are left, among them all that were synced,
and part of another. -/
theorem Disk.Firm.cut {disk disk' : Disk} {top : FileId} {chart : Chart}
    (h : disk.Firm top chart) (hcut : Disk.Cut top disk disk') :
    exists kept tail, kept <+: chart top ∧
      (forall rs, rs <+: chart top ->
        (Rec.join rs).length <= disk.synced top -> rs <+: kept) ∧
      Openable disk' (Function.update chart top kept) tail ∧
      disk'.listDataFiles.getLast? = some top := by
  rcases hcut.kept with ⟨n, hn, hbytes⟩
  rcases join_cut (chart top) n with
    ⟨kept, tail, htake, hkept, htorn, hmost⟩
  rw [h.files top h.linked, htake] at hbytes
  have hall : forall rs, rs <+: chart top ->
      (Rec.join rs).length <= disk.synced top -> rs <+: kept :=
    fun rs hrs hle => hmost rs hrs (Nat.le_trans hle hn)
  have hmem := hcut.mem_iff h.linked
  have hlast : disk'.listDataFiles.getLast? = some top := by
    rw [listDataFiles_congr hmem]
    exact getLast_of_newest h.linked h.newest
  have hne : forall id, id ≠ top ->
      Function.update chart top kept id = chart id :=
    fun id hid => Function.update_of_ne hid ..
  have hself : Function.update chart top kept top = kept :=
    Function.update_self ..
  refine ⟨kept, tail, hkept, hall, ⟨?_, ?_, htorn, ?_, ?_, ?_⟩, hlast⟩
  · intro id hnot
    have hid : id ≠ top := fun heq => hnot (heq ▸ hcut.linked)
    rw [hne id hid]
    exact h.absent id (fun hin => hnot ((hmem id).mpr hin))
  · intro id hin
    rw [hlast]
    by_cases heq : id = top
    · rw [heq, if_pos rfl, hself]
      exact hbytes
    · rw [if_neg (by simpa using Ne.symm heq), List.append_nil, hne id heq,
        (hcut.other heq).1]
      exact h.files id ((hmem id).mp hin)
  · intro id hin hnot
    rw [hlast, ne_eq, Option.some.injEq] at hnot
    rw [(hcut.other (Ne.symm hnot)).1, (hcut.other (Ne.symm hnot)).2]
    exact h.sealed id (Ne.symm hnot)
  · intro id hsome hnil
    rw [hlast, Option.some.injEq] at hsome
    subst hsome
    refine ⟨kept, ?_, ?_⟩
    · rewrite [hself]
      exact List.prefix_refl kept
    · rw [hcut.settled, hbytes, hnil, List.append_nil]
  · intro id bytes hin hlookup
    rcases h.hints id bytes (hcut.hints id bytes hlookup) with
      ⟨hinted, es, hstarts, hhint, hdescribes, hle⟩
    by_cases heq : id = top
    · subst heq
      have hthere := hall hinted hstarts hle
      refine ⟨hinted, es, ?_, hhint, hdescribes, ?_⟩
      · rw [hself]
        exact hthere
      · have hlength := (join_mono hthere).length_le
        rw [hcut.settled, hbytes, List.length_append]
        omega
    · refine ⟨hinted, es, ?_, hhint, hdescribes, ?_⟩
      · rw [hne id heq]
        exact hstarts
      · rw [(hcut.other heq).2]
        exact hle

theorem Charted.synced_of_ne {s : Store} {chart : Chart} (h : Charted s chart)
    {id : FileId} (hne : id ≠ s.writer.fileId) :
    s.dir.disk.synced id = (s.dir.disk.contents id).length := by
  by_cases hin : id ∈ s.dir.disk.data
  · rw [(h.sealed id hin hne).1, (h.sealed id hin hne).2]
  · rw [Disk.synced, Disk.contents, AList.lookup_eq_none.mpr hin]
    rfl

/-- What the kernel has of the active file is some of its records. -/
theorem Charted.firm {s : Store} {chart : Chart} (hok : s.Ok)
    (h : Charted s chart) :
    exists flushed, flushed <+: chart s.writer.fileId ∧
      s.dir.disk.contents s.writer.fileId = Rec.join flushed ∧
      s.dir.disk.Firm s.writer.fileId
        (Function.update chart s.writer.fileId flushed) := by
  rcases h.flushed with ⟨flushed, hflushed, hfile⟩
  have hne : forall id, id ≠ s.writer.fileId ->
      Function.update chart s.writer.fileId flushed id = chart id :=
    fun id hid => Function.update_of_ne hid ..
  have hself : Function.update chart s.writer.fileId flushed
      s.writer.fileId = flushed :=
    Function.update_self ..
  refine ⟨flushed, hflushed, hfile, hok.writer.linked, hok.newest, ?_, ?_,
    fun id hid => h.synced_of_ne hid, ?_⟩
  · intro id hnot
    rw [hne id (fun heq => hnot (heq ▸ hok.writer.linked))]
    exact h.absent id hnot
  · intro id hin
    by_cases heq : id = s.writer.fileId
    · rw [heq, hself]
      exact hfile
    · rw [hne id heq]
      exact (h.sealed id hin heq).1
  · intro id bytes hlookup
    by_cases heq : id = s.writer.fileId
    · subst heq
      rcases h.hints _ bytes hlookup with
        ⟨hinted, es, hstarts, hhint, hdescribes, hle⟩
      refine ⟨hinted, es, ?_, hhint, hdescribes, hle⟩
      have hlength := s.dir.disk.synced_le s.writer.fileId
      rw [hfile] at hlength
      rw [hself]
      exact prefix_of_join_le hstarts hflushed (Nat.le_trans hle hlength)
    · rw [hne id heq]
      exact h.hints id bytes hlookup

/-- Some of the active file's records are left, among them all that were synced,
and part of another. -/
theorem Charted.cut {s : Store} {chart : Chart} (hok : s.Ok)
    (h : Charted s chart) {disk : Disk}
    (hcut : Disk.Cut s.writer.fileId s.dir.disk disk) :
    exists kept tail, kept <+: chart s.writer.fileId ∧
      (forall rs, rs <+: chart s.writer.fileId ->
        (Rec.join rs).length <= s.dir.disk.synced s.writer.fileId ->
        rs <+: kept) ∧
      Openable disk (Function.update chart s.writer.fileId kept) tail := by
  rcases h.firm hok with ⟨flushed, hflushed, hfile, hfirm⟩
  rcases hfirm.cut hcut with ⟨kept, tail, hkept, hall, hopenable, _⟩
  rw [Function.update_self] at hkept hall
  rw [Function.update_idem] at hopenable
  refine ⟨kept, tail, hkept.trans hflushed, ?_, hopenable⟩
  intro rs hrs hle
  have hlength := s.dir.disk.synced_le s.writer.fileId
  rw [hfile] at hlength
  exact hall rs (prefix_of_join_le hrs hflushed (Nat.le_trans hle hlength)) hle

theorem Charted.settled {s : Store} {chart : Chart} (h : Charted s chart)
    (hactive : s.dir.disk.synced s.writer.fileId =
      (s.dir.disk.contents s.writer.fileId).length) :
    s.dir.disk.Settled := by
  intro id
  by_cases heq : id = s.writer.fileId
  · rw [heq]
    exact hactive
  · exact h.synced_of_ne heq

theorem Charted.settled_cut {s : Store} {chart : Chart}
    (h : Charted s chart) {disk : Disk}
    (hcut : Disk.Cut s.writer.fileId s.dir.disk disk) : disk.Settled := by
  intro id
  by_cases heq : id = s.writer.fileId
  · rw [heq]
    exact hcut.settled
  · rw [(hcut.other heq).1, (hcut.other heq).2]
    exact h.synced_of_ne heq

/-!
# Opening what a cut left

A store that opens on files that were all synced leaves them so.
-/

theorem Disk.Settled.congr {disk disk' : Disk} (h : disk.Settled)
    (hdata : disk'.data = disk.data) : disk'.Settled := by
  intro id
  rw [Disk.synced, Disk.contents, hdata]
  exact h id

theorem synced_all (dir : Dir) (id : FileId) :
    (dir.syncData id).disk.synced id =
      ((dir.syncData id).disk.contents id).length := by
  rw [Dir.synced_syncData]
  by_cases hin : id ∈ dir.disk.data
  · rw [Dir.contents_syncData hin]
  · rw [Disk.contents, Disk.contents, Dir.syncData, Dir.lookup_modify,
      if_pos rfl, AList.lookup_eq_none.mpr hin]
    rfl

theorem settled_syncData {dir : Dir} {id : FileId}
    (h : forall other, other ≠ id ->
      dir.disk.synced other = (dir.disk.contents other).length) :
    (dir.syncData id).disk.Settled := by
  intro other
  by_cases heq : other = id
  · rw [heq]
    exact synced_all dir id
  · have hlookup := (Dir.syncData_sameBut dir id).lookup other heq
    rw [Disk.synced, Disk.contents, hlookup]
    exact h other heq

theorem Disk.Settled.create {dir : Dir} (h : dir.disk.Settled) (id : FileId) :
    (dir.create id).disk.Settled := by
  intro other
  have hother := h other
  rw [Disk.synced, Disk.contents] at hother ⊢
  rw [Dir.lookup_create]
  by_cases heq : other = id
  · rw [if_pos heq, ← heq]
    exact hother
  · rw [if_neg heq]
    exact hother

/-- What reading one file does: nothing, or it cuts off the torn end of the file,
or it syncs the file and writes its hint. -/
theorem readEntries_cases {dir dir' : Dir} {opts : Options} {id : FileId}
    {isNewest : Bool} {es : List HintEntry}
    (hread : readEntries dir opts id isNewest = Except.ok (es, dir')) :
    dir' = dir ∨ (exists len, dir' = (dir.setLen id len).syncData id) ∨
      dir' = Hint.write (dir.syncData id) id (dir.disk.contents id).length
        es := by
  unfold Minicask.readEntries at hread
  dsimp only at hread
  generalize (if opts.verifyOnOpen then ([], 0)
    else (Hint.load dir.disk id (dir.disk.contents id).length).getD ([], 0)) =
      start at hread
  split at hread
  · split at hread
    · split at hread
      · cases hread
      · cases hread
        exact Or.inr (Or.inl ⟨_, rfl⟩)
    · split at hread
      · cases hread
        exact Or.inl rfl
      · cases hread
        exact Or.inr (Or.inr rfl)
  · cases hread
    exact Or.inl rfl

theorem Disk.Settled.readEntries {dir dir' : Dir} (h : dir.disk.Settled)
    {opts : Options} {id : FileId} {isNewest : Bool} {es : List HintEntry}
    (hread : readEntries dir opts id isNewest = Except.ok (es, dir')) :
    dir'.disk.Settled := by
  rcases readEntries_cases hread with hsame | ⟨len, hcut⟩ | hhinted
  · rw [hsame]
    exact h
  · rw [hcut]
    apply settled_syncData
    intro other hne
    rw [Disk.synced, Disk.contents, Dir.setLen, Dir.lookup_modify,
      if_neg hne]
    exact h other
  · rw [hhinted]
    exact settled_syncData (fun other _ => h other)

theorem Disk.Settled.openLoop {opts : Options} {newest : Option FileId}
    {ids : List FileId} {o o' : Opening} (h : o.dir.disk.Settled)
    (hloop : openLoop opts newest ids o = Except.ok o') :
    o'.dir.disk.Settled := by
  induction ids generalizing o with
  | nil =>
      cases hloop
      exact h
  | cons id ids ih =>
      rw [Minicask.openLoop] at hloop
      cases hread : Minicask.readEntries o.dir opts id (newest == some id) with
      | error e =>
          rw [hread] at hloop
          cases hloop
      | ok read =>
          rw [hread] at hloop
          refine ih ?_ hloop
          have hdir := (dir_index id read.1 { o with dir := read.2 }).1
          have hsettled := h.readEntries hread
          split
          · exact hdir ▸ hsettled
          · exact hdir ▸ hsettled

theorem Disk.Settled.openWith {dir : Dir} (h : dir.disk.Settled)
    {opts : Options} {s : Store}
    (hopen : Store.openWith dir opts = Except.ok s) :
    s.dir.disk.Settled ∧ s.opts = opts := by
  unfold Store.openWith at hopen
  dsimp only at hopen
  split at hopen
  · cases hopen
  · rename_i o hloop
    cases hopen
    refine ⟨?_, rfl⟩
    exact (Disk.Settled.openLoop (h.congr (removeLeftovers_spec dir).1)
      hloop).create _

/-!
# Calls and the records they leave
-/

namespace Call

/-- One of the calls that append, or a sync. -/
def Plain : Call -> Prop
  | compact => False
  | reopen _ => False
  | _ => True

/-- A call that puts itself and everything before it on the disk.  A delete of a
key that is not there writes nothing, and syncs nothing. -/
def Lands (policy : SyncPolicy) (m : Contents) : Call -> Prop
  | put key _ _ _ => policy = SyncPolicy.everyWrite ∧ key ≠ []
  | delete key _ _ => policy = SyncPolicy.everyWrite ∧ (m key).isSome
  | sync => True
  | _ => False

end Call

/-- The map that some calls make of another. -/
def appliedTo (base : Contents) (calls : List Call) : Contents :=
  replay base (calls.filterMap Call.write)

/-- The first `m` calls cover every one that put itself on the disk. -/
structure CoversLanded (policy : SyncPolicy) (base : Contents)
    (calls : List Call) (m : Nat) : Prop where
  le : m <= calls.length
  landed : forall i c, calls[i]? = some c ->
    c.Lands policy (appliedTo base (calls.take i)) -> i < m

/-- Any start of the log with at least `n` records is what some of the calls
left, all that landed among them. -/
def Recoverable (policy : SyncPolicy) (base : Contents) (calls : List Call)
    (log : List Rec) (n : Nat) : Prop :=
  forall j, n <= j -> j <= log.length ->
    exists m, CoversLanded policy base calls m ∧
      appliedTo base (calls.take m) =
        replay empty ((log.take j).map Rec.write)

theorem coversLanded_all (policy : SyncPolicy) (base : Contents)
    (calls : List Call) : CoversLanded policy base calls calls.length := by
  constructor
  · exact Nat.le_refl _
  · intro i c hc _
    exact (List.getElem?_eq_some_iff.mp hc).1

theorem CoversLanded.snoc {policy : SyncPolicy} {base : Contents}
    {calls : List Call} {m : Nat} (h : CoversLanded policy base calls m)
    {c : Call} (hidle : ¬c.Lands policy (appliedTo base calls)) :
    CoversLanded policy base (calls ++ [c]) m := by
  constructor
  · rw [List.length_append]
    exact Nat.le_add_right_of_le h.le
  · intro i other hother hlands
    by_cases hi : i < calls.length
    · rw [List.getElem?_append_left hi] at hother
      rw [List.take_append_of_le_length (Nat.le_of_lt hi)] at hlands
      exact h.landed i other hother hlands
    · have hlast := (List.getElem?_eq_some_iff.mp hother).1
      rw [List.length_append, List.length_singleton] at hlast
      have heq : i = calls.length := by omega
      rw [heq, List.getElem?_concat_length, Option.some.injEq] at hother
      rw [heq, List.take_left, ← hother] at hlands
      exact absurd hlands hidle

/-- One call more, and at most one record: if the call landed then the whole log
is on the disk. -/
theorem Recoverable.step {policy : SyncPolicy} {base : Contents}
    {calls : List Call} {log : List Rec} {n : Nat}
    (h : Recoverable policy base calls log n) {c : Call} {more : List Rec}
    (hmore : more.length <= 1)
    (hwhole : appliedTo base (calls ++ [c]) =
      replay empty ((log ++ more).map Rec.write)) {n' : Nat} (hn : n <= n')
    (hlands : c.Lands policy (appliedTo base calls) ->
      n' = (log ++ more).length) :
    Recoverable policy base (calls ++ [c]) (log ++ more) n' := by
  intro j hnj hj
  by_cases hold : j <= log.length ∧ ¬c.Lands policy (appliedTo base calls)
  · rcases h j (Nat.le_trans hn hnj) hold.1 with ⟨m, hcovers, hmap⟩
    refine ⟨m, hcovers.snoc hold.2, ?_⟩
    rw [List.take_append_of_le_length hcovers.le, hmap,
      List.take_append_of_le_length hold.1]
  · have hall : j = (log ++ more).length := by
      rw [List.length_append] at hj hlands ⊢
      by_cases hland : c.Lands policy (appliedTo base calls)
      · have := hlands hland
        omega
      · have : ¬j <= log.length := fun hle => hold ⟨hle, hland⟩
        omega
    refine ⟨(calls ++ [c]).length, coversLanded_all _ _ _, ?_⟩
    rw [List.take_length, hwhole, hall, List.take_length]

/-!
# How much of the log is on the disk
-/

/-- The first `n` records of the log are sure to survive a cut. -/
def Safe (s : Store) (chart : Chart) (n : Nat) : Prop :=
  exists rs, rs <+: chart s.writer.fileId ∧
    s.dir.disk.synced s.writer.fileId = (Rec.join rs).length ∧
    n = ((List.range s.writer.fileId).flatMap chart).length + rs.length

theorem Safe.le {s : Store} {chart : Chart} {n : Nat} (h : Safe s chart n) :
    n <= (logged chart s.writer.fileId).length := by
  rcases h with ⟨rs, hrs, _, hn⟩
  have := hrs.length_le
  rw [logged_eq, List.length_append]
  omega

theorem safe_of_synced {s : Store} {chart : Chart} (hok : s.Ok)
    (h : Charted s chart)
    (hsynced : s.dir.disk.synced s.writer.fileId = s.writer.offset) :
    Safe s chart (logged chart s.writer.fileId).length := by
  refine ⟨chart s.writer.fileId, List.prefix_refl _, ?_, ?_⟩
  · rw [hsynced, h.join_length hok]
  · rw [logged_eq, List.length_append]

theorem Safe.advanced {s s' : Store} {chart : Chart} {n : Nat} (hok : s.Ok)
    (hcharted : Charted s chart) (h : Safe s chart n) {rs : List Rec}
    (hadvanced : s.Advanced (Rec.join rs) s') :
    exists n', n <= n' ∧ Safe s' (chart.extend s.writer.fileId rs) n' := by
  rcases h with ⟨safe, hsafe, hsynced, hn⟩
  have hid := hadvanced.appended.fileId
  have hbelow : (List.range s.writer.fileId).flatMap
      (chart.extend s.writer.fileId rs) =
        (List.range s.writer.fileId).flatMap chart := by
    apply List.flatMap_congr
    intro id hrange
    exact chart.extend_of_ne rs (Nat.ne_of_lt (List.mem_range.mp hrange))
  have hmore : safe <+: chart.extend s.writer.fileId rs s.writer.fileId := by
    rw [Chart.extend_self]
    exact hsafe.trans (List.prefix_append _ _)
  rcases hadvanced.appended.synced with hsame | hall
  · refine ⟨n, Nat.le_refl n, safe, ?_, ?_, ?_⟩
    · rw [hid]
      exact hmore
    · rw [hid, hsame, hsynced]
    · rw [hid, hbelow, hn]
  · rcases hcharted.flushed_advanced hok hadvanced with
      ⟨flushed, hflushed, hcontents⟩
    have hlength : s'.dir.disk.synced s.writer.fileId =
        (Rec.join flushed).length := by
      rw [hall, ← hcontents, ← hid, hadvanced.appended.ok.written]
    have hgrows : safe <+: flushed := by
      apply prefix_of_join_le hmore hflushed
      rw [← hlength, ← hsynced]
      exact hadvanced.appended.frame.synced
    refine ⟨((List.range s.writer.fileId).flatMap chart).length +
      flushed.length, ?_, flushed, ?_, ?_, ?_⟩
    · have := hgrows.length_le
      omega
    · rw [hid]
      exact hflushed
    · rw [hid, hlength]
    · rw [hid, hbelow]

/-- A rollover seals the old file, so all of the log is safe. -/
theorem Safe.rolled {s : Store} {chart : Chart} {n : Nat} (hok : s.Ok)
    (hcharted : Charted s chart) (h : Safe s chart n) (incoming : Nat) :
    logged chart (s.rollIfNeeded incoming).writer.fileId =
        logged chart s.writer.fileId ∧
      exists n', n <= n' ∧ Safe (s.rollIfNeeded incoming) chart n' := by
  unfold Store.rollIfNeeded
  split
  · exact ⟨rfl, n, Nat.le_refl n, h⟩
  · have hnext : s.writer.fileId < s.writer.fileId + 1 := Nat.lt_succ_self _
    have hlogged : logged chart (s.writer.fileId + 1) =
        logged chart s.writer.fileId :=
      logged_of_empty (Nat.le_succ _) (fun id hgt => hcharted.empty_of_gt hok hgt)
    rcases (hcharted.sealInto hok hnext).synced with ⟨rs, hrs, hsynced⟩
    exact ⟨hlogged, _, Nat.le_trans h.le (Nat.le_add_right _ rs.length), rs,
      hrs, hsynced, rfl⟩

/-!
# What each call does to the log
-/

namespace LogWriter

theorem synced_append {w : LogWriter} {dir : Dir} (h : w.Ok dir)
    (bytes : Bytes) :
    (w.append dir bytes Reach.disk).2.2.disk.synced w.fileId =
      (w.append dir bytes Reach.disk).2.1.offset := by
  unfold append
  by_cases hdirect : Reach.disk ≠ Reach.buffer ∧ w.pending.isEmpty
  · rw [if_pos hdirect]
    have hwrite := appended_writeAll h bytes w.synced
      (List.isEmpty_iff.mp hdirect.2)
    show ((dir.writeAll w.fileId bytes).syncData w.fileId).disk.synced
      w.fileId = w.offset + bytes.length
    rw [Dir.synced_syncData]
    exact hwrite.ok.written
  · rw [if_neg hdirect]
    have hbuffer := appended_pending h bytes
    have hflush := appended_flush hbuffer.ok
    exact (synced_sync hbuffer.ok).trans (hflush.1.offset hbuffer.ok).symm

end LogWriter

namespace Store

/-- A write took some bytes as far as it had to, after a rollover if one was
due. -/
def Flowed (s : Store) (reach : Reach) (s' : Store) : Prop :=
  s'.opts = s.opts ∧ exists bytes,
    s'.writer = ((s.rollIfNeeded bytes.length).writer.append
      (s.rollIfNeeded bytes.length).dir bytes reach).2.1 ∧
    s'.dir = ((s.rollIfNeeded bytes.length).writer.append
      (s.rollIfNeeded bytes.length).dir bytes reach).2.2

theorem opts_rollIfNeeded (s : Store) (incoming : Nat) :
    (s.rollIfNeeded incoming).opts = s.opts := by
  unfold rollIfNeeded
  split <;> rfl

theorem flowed_putWith {s s' : Store} {key value : Bytes} {reach : Reach}
    {now later : UInt64}
    (h : s.putWith key value reach now later = Except.ok s') :
    s.Flowed reach s' := by
  rcases putWith_eq_ok h with ⟨_, bytes, _, _, _, _, _, rfl, happend, rfl⟩
  exact ⟨opts_rollIfNeeded s _, bytes, by rw [← happend], by rw [← happend]⟩

theorem flowed_deleteWith {s s' : Store} {key : Bytes} {reach : Reach}
    {now later : UInt64}
    (h : s.deleteWith key reach now later = Except.ok (s', true)) :
    s.Flowed reach s' := by
  rcases deleteWith_eq_ok h with
    ⟨_, _, ⟨habsent, _⟩ | ⟨_, bytes, _, _, _, _, _, rfl, happend, rfl⟩⟩
  · cases habsent
  · exact ⟨opts_rollIfNeeded s _, bytes, by rw [← happend], by rw [← happend]⟩

theorem Flowed.synced {s s' : Store} (hok : s.Ok)
    (h : s.Flowed Reach.disk s') :
    s'.dir.disk.synced s'.writer.fileId = s'.writer.offset := by
  rcases h with ⟨_, bytes, hwriter, hdir⟩
  have hwriterOk := (rolled hok bytes.length).1.writer
  have happended := LogWriter.appended_append hwriterOk bytes Reach.disk
  rw [hwriter, hdir, happended.2.fileId]
  exact LogWriter.synced_append hwriterOk bytes

end Store

theorem Store.synced_sync {s : Store} (hok : s.Ok) :
    s.sync.dir.disk.synced s.sync.writer.fileId = s.sync.writer.offset := by
  have happended := (Store.advanced_sync hok).appended
  rw [happended.fileId, happended.offset hok.writer]
  exact LogWriter.synced_sync hok.writer

/-- A store some calls have been made on since it held `base`: the chart has their
records, the first `n` of them safe. -/
structure Logs (s : Store) (base : Contents) (calls : List Call)
    (chart : Chart) (n : Nat) : Prop where
  ok : s.Ok
  indexes : s.Indexes (appliedTo base calls)
  compacting : s.compacting = false
  restoring : s.restoring = false
  charted : Charted s chart
  whole : recorded chart s.writer.fileId = appliedTo base calls
  safe : Safe s chart n
  recoverable : Recoverable s.opts.sync base calls
    (logged chart s.writer.fileId) n

theorem appliedTo_snoc (base : Contents) (calls : List Call) (c : Call) :
    appliedTo base (calls ++ [c]) =
      replay (appliedTo base calls) c.write.toList := by
  rw [appliedTo, List.filterMap_append, replay_append]
  cases hwrite : c.write with
  | none => rw [List.filterMap_cons_none hwrite]; rfl
  | some w => rw [List.filterMap_cons_some hwrite]; rfl

namespace Logs

theorem idle {s : Store} {base : Contents} {calls : List Call}
    {chart : Chart} {n : Nat} (h : Logs s base calls chart n) {c : Call}
    (hidle : ¬c.Lands s.opts.sync (appliedTo base calls))
    (hsame : replay (appliedTo base calls) c.write.toList =
      appliedTo base calls) :
    Logs s base (calls ++ [c]) chart n := by
  have hafter : appliedTo base (calls ++ [c]) = appliedTo base calls :=
    (appliedTo_snoc base calls c).trans hsame
  refine ⟨h.ok, ?_, h.compacting, h.restoring, h.charted, ?_, h.safe, ?_⟩
  · rw [hafter]
    exact h.indexes
  · rw [hafter]
    exact h.whole
  · have hstep := h.recoverable.step (c := c)
      (show ([] : List Rec).length <= 1 from Nat.zero_le 1)
      (by rw [hafter, List.append_nil, ← h.whole, recorded]) (Nat.le_refl n)
      (fun hlands => absurd hlands hidle)
    rw [List.append_nil] at hstep
    exact hstep

theorem wrote {s s' : Store} {base : Contents} {calls : List Call}
    {chart : Chart} {n : Nat} (h : Logs s base calls chart n) {c : Call}
    {r : Rec} {reach : Reach} (hwrite : c.write = some r.write)
    (hwrote : s.Wrote r s') (hflowed : s.Flowed reach s')
    (hindexes : s'.Indexes (act (appliedTo base calls) r.write))
    (hlands : c.Lands s.opts.sync (appliedTo base calls) ->
      reach = Reach.disk) :
    exists chart' n', Logs s' base (calls ++ [c]) chart' n' := by
  have hok := hwrote.ok h.ok
  have hokRolled := (Store.rolled h.ok r.bytes.length).1
  have hafter : appliedTo base (calls ++ [c]) =
      act (appliedTo base calls) r.write := by
    rw [appliedTo_snoc, hwrite]
    rfl
  rcases h.charted.wrote h.ok hwrote with ⟨hcharted, hrecorded⟩
  rcases h.safe.rolled h.ok h.charted r.bytes.length with
    ⟨hlogged, n₁, hn₁, hsafe₁⟩
  have hadvanced : (s.rollIfNeeded r.bytes.length).Advanced
      (Rec.join [r]) s' := by
    rw [Rec.join_cons, Rec.join_nil, List.append_nil]
    exact hwrote.advanced
  rcases hsafe₁.advanced hokRolled (h.charted.rolled h.ok r.bytes.length).1
    hadvanced with ⟨n₂, hn₂, hsafe₂⟩
  rw [← hadvanced.appended.fileId] at hsafe₂
  have hlog : logged (chart.extend s'.writer.fileId [r]) s'.writer.fileId =
      logged chart s.writer.fileId ++ [r] := by
    rw [logged_extend, hadvanced.appended.fileId, hlogged]
  have hwhole : recorded (chart.extend s'.writer.fileId [r])
      s'.writer.fileId = appliedTo base (calls ++ [c]) := by
    rw [hrecorded, h.whole, hafter]
  have hstep : forall n', n <= n' ->
      (c.Lands s.opts.sync (appliedTo base calls) ->
        n' = (logged chart s.writer.fileId ++ [r]).length) ->
      Recoverable s'.opts.sync base (calls ++ [c])
        (logged (chart.extend s'.writer.fileId [r]) s'.writer.fileId) n' := by
    intro n' hn' hall
    rw [hflowed.1, hlog]
    refine h.recoverable.step (show [r].length <= 1 from Nat.le_refl 1) ?_
      hn' hall
    rw [← hwhole, recorded, hlog]
  have hlogs : forall n', Safe s' (chart.extend s'.writer.fileId [r]) n' ->
      Recoverable s'.opts.sync base (calls ++ [c])
        (logged (chart.extend s'.writer.fileId [r]) s'.writer.fileId) n' ->
      Logs s' base (calls ++ [c]) (chart.extend s'.writer.fileId [r]) n' :=
    fun n' hsafe hrecoverable =>
      ⟨hok, hafter ▸ hindexes, hwrote.compacting.trans h.compacting,
        hwrote.restoring.trans h.restoring, hcharted, hwhole, hsafe,
        hrecoverable⟩
  have hn : n <= n₂ := Nat.le_trans hn₁ hn₂
  -- A landing call leaves all of the log safe, any other at least what was.
  by_cases hland : c.Lands s.opts.sync (appliedTo base calls)
  · have hreach := hlands hland
    subst hreach
    have hsafe := safe_of_synced hok hcharted (hflowed.synced h.ok)
    exact ⟨_, _, hlogs _ hsafe
      (hstep _ (Nat.le_trans hn hsafe₂.le) (fun _ => by rw [hlog]))⟩
  · exact ⟨_, n₂, hlogs n₂ hsafe₂
      (hstep n₂ hn (fun hlands' => absurd hlands' hland))⟩

theorem sync {s : Store} {base : Contents} {calls : List Call}
    {chart : Chart} {n : Nat} (h : Logs s base calls chart n) :
    exists n', Logs s.sync base (calls ++ [Call.sync]) chart n' := by
  have hadvanced := Store.advanced_sync h.ok
  have hid : s.sync.writer.fileId = s.writer.fileId :=
    hadvanced.appended.fileId
  have hok := hadvanced.ok h.ok
  have hcharted := h.charted.sync h.ok
  have hafter : appliedTo base (calls ++ [Call.sync]) =
      appliedTo base calls := by
    rw [appliedTo_snoc]
    rfl
  have hsynced := Store.synced_sync h.ok
  refine ⟨_, hok, ?_, h.compacting, h.restoring, hcharted, ?_,
    safe_of_synced hok hcharted hsynced, ?_⟩
  · rw [hafter]
    exact h.indexes.carried (hadvanced.carries h.ok) rfl
  · rw [hafter, hid]
    exact h.whole
  · have hstep := h.recoverable.step (c := Call.sync)
      (show ([] : List Rec).length <= 1 from Nat.zero_le 1)
      (by rw [hafter, List.append_nil, ← h.whole, recorded]) h.safe.le
      (fun _ => by rw [List.append_nil])
    rw [List.append_nil] at hstep
    rw [hid]
    exact hstep

theorem putWith {s : Store} {base : Contents} {calls : List Call}
    {chart : Chart} {n : Nat} (h : Logs s base calls chart n) {c : Call}
    {key value : Bytes} {reach : Reach} {now later : UInt64}
    (hkey : key ≠ [])
    (hshort : headerLen + key.length + value.length < 2 ^ 32)
    (hwrite : c.write = some { key := key, value := some value })
    (hlands : c.Lands s.opts.sync (appliedTo base calls) ->
      reach = Reach.disk) :
    exists s', s.putWith key value reach now later = Except.ok s' ∧
      exists chart' n', Logs s' base (calls ++ [c]) chart' n' := by
  rcases Store.putWith_spec h.ok h.indexes h.restoring hkey hshort reach now
    later with ⟨s', r, hput, hr, hwrote, hindexes⟩
  rw [← hr] at hwrite hindexes
  exact ⟨s', hput,
    h.wrote hwrite hwrote (Store.flowed_putWith hput) hindexes hlands⟩

theorem deleteWith {s : Store} {base : Contents} {calls : List Call}
    {chart : Chart} {n : Nat} (h : Logs s base calls chart n) {c : Call}
    {key : Bytes} {reach : Reach} {now later : UInt64}
    (hwrite : c.write = some { key := key, value := none })
    (hlands : c.Lands s.opts.sync (appliedTo base calls) ->
      reach = Reach.disk ∧ (appliedTo base calls key).isSome) :
    exists s' was, s.deleteWith key reach now later = Except.ok (s', was) ∧
      exists chart' n', Logs s' base (calls ++ [c]) chart' n' := by
  rcases Store.deleteWith_spec h.ok h.indexes h.restoring key reach now
    later with ⟨s', hdelete, hindexes, hcases⟩
  cases hm : appliedTo base calls key with
  | none =>
      have habsent : s.containsKey key = false := by
        rw [Store.containsKey_eq h.indexes, hm]
        rfl
      refine ⟨s, false,
        Store.deleteWith_absent h.restoring habsent reach now later, chart, n,
        h.idle ?_ ?_⟩
      · intro hland
        have hlive := (hlands hland).2
        rw [hm] at hlive
        cases hlive
      · rw [hwrite]
        exact act_eq_self hm
  | some value =>
      rw [hm] at hdelete
      rcases hcases with ⟨_, hnone⟩ | ⟨r, hr, hwrote⟩
      · rw [hm] at hnone
        cases hnone
      · rw [← hr] at hwrite hindexes
        exact ⟨s', true, hdelete, h.wrote hwrite hwrote
          (Store.flowed_deleteWith hdelete) hindexes
          (fun hland => (hlands hland).1)⟩

theorem reach_everyWrite {s : Store}
    (h : s.opts.sync = SyncPolicy.everyWrite) : s.reach = Reach.disk := by
  rw [Store.reach, h]

theorem call {s : Store} {base : Contents} {calls : List Call}
    {chart : Chart} {n : Nat} (h : Logs s base calls chart n) {c : Call}
    (hplain : c.Plain) (hshort : c.Short) :
    exists chart' n', Logs (s.call c).1 base (calls ++ [c]) chart' n' := by
  have hrefused : forall value now later reach,
      s.putWith [] value reach now later =
        Except.error (Error.invalidKey "keys may not be empty") := by
    intro value now later reach
    rw [Store.putWith, if_neg (by simp [h.restoring]), encode_nil]
  cases c with
  | put key value now later =>
      by_cases hkey : key = []
      · subst hkey
        rw [Store.call, Store.put, hrefused]
        exact ⟨chart, n, h.idle (fun hland => hland.2 rfl) rfl⟩
      · rcases h.putWith (c := Call.put key value now later) hkey hshort
          (by simp [Call.write, hkey])
          (fun hland => reach_everyWrite hland.1) with ⟨s', hput, hlogs⟩
        rw [Store.call, Store.put, hput]
        exact hlogs
  | putDeferred key value now later =>
      by_cases hkey : key = []
      · subst hkey
        rw [Store.call, Store.putDeferred, hrefused]
        exact ⟨chart, n, h.idle (fun hland => hland) rfl⟩
      · rcases h.putWith (c := Call.putDeferred key value now later) hkey
          hshort (by simp [Call.write, hkey]) False.elim with
          ⟨s', hput, hlogs⟩
        rw [Store.call, Store.putDeferred, hput]
        exact hlogs
  | delete key now later =>
      rcases h.deleteWith (c := Call.delete key now later) rfl
        (fun hland => ⟨reach_everyWrite hland.1, hland.2⟩) with
        ⟨s', was, hdelete, hlogs⟩
      rw [Store.call, Store.delete, hdelete]
      exact hlogs
  | deleteDeferred key now later =>
      rcases h.deleteWith (c := Call.deleteDeferred key now later) rfl
        False.elim with ⟨s', was, hdelete, hlogs⟩
      rw [Store.call, Store.deleteDeferred, hdelete]
      exact hlogs
  | sync => exact ⟨chart, h.sync⟩
  | compact => exact False.elim hplain
  | reopen opts => exact False.elim hplain

/-!
# Cut after cut
-/

/-- A store opens on what a cut leaves, as some start of the log that has
everything that was safe. -/
theorem reopen_cut {s : Store} {base : Contents} {calls : List Call}
    {chart : Chart} {n : Nat} (h : Logs s base calls chart n) {disk : Disk}
    (hcut : Disk.Cut s.writer.fileId s.dir.disk disk) (opts : Options) :
    exists s' j kept, Store.openWith { disk := disk } opts = Except.ok s' ∧
      Opened { disk := disk } (Function.update chart s.writer.fileId kept)
        s' ∧
      n <= j ∧ j <= (logged chart s.writer.fileId).length ∧
      recorded (Function.update chart s.writer.fileId kept)
        s'.writer.fileId =
          replay empty (((logged chart s.writer.fileId).take j).map
            Rec.write) := by
  rcases h.charted.cut h.ok hcut with ⟨kept, tail, hkept, hall, hopenable⟩
  rcases h.safe with ⟨safe, hsafe, hsynced, hn⟩
  have hdir : Openable ({ disk := disk } : Dir).disk
      (Function.update chart s.writer.fileId kept) tail :=
    hopenable
  rcases openWith_opened hdir opts with ⟨s', hopen, hopened, hid⟩
  have hactive : s'.writer.fileId = s.writer.fileId := by
    rw [hid, listDataFiles_congr (hcut.mem_iff h.ok.writer.linked),
      getLast_of_newest h.ok.writer.linked h.ok.newest]
    rfl
  refine ⟨s', ((List.range s.writer.fileId).flatMap chart).length +
    kept.length, kept, hopen, hopened, ?_, ?_, ?_⟩
  · have := (hall safe hsafe (Nat.le_of_eq hsynced.symm)).length_le
    omega
  · have := hkept.length_le
    rw [logged_eq, List.length_append]
    omega
  · have hbelow : (List.range s.writer.fileId).flatMap
        (Function.update chart s.writer.fileId kept) =
          (List.range s.writer.fileId).flatMap chart := by
      apply List.flatMap_congr
      intro id hrange
      exact Function.update_of_ne
        (Nat.ne_of_lt (List.mem_range.mp hrange)) ..
    rw [hactive, recorded, logged_eq, logged_eq, hbelow, Function.update_self,
      List.take_append, List.take_of_length_le (Nat.le_add_right _ _),
      Nat.add_sub_cancel_left]
    rw [← List.prefix_iff_eq_take.mp hkept]

theorem of_opened {dir : Dir} {chart : Chart} {s : Store} {m : Contents}
    (h : Opened dir chart s) (hm : recorded chart s.writer.fileId = m)
    (hsettled : s.dir.disk.Settled) :
    Logs s m [] chart (logged chart s.writer.fileId).length := by
  refine ⟨h.ok, hm ▸ h.indexes, h.compacting, h.restoring, h.charted, hm, ?_,
    ?_⟩
  · apply safe_of_synced h.ok h.charted
    rw [hsettled, h.ok.writer.written, h.ok.writer.offset, h.pending]
    rfl
  · intro j hlow hhigh
    refine ⟨0, coversLanded_all _ _ [], ?_⟩
    rw [Nat.le_antisymm hhigh hlow, List.take_length]
    exact hm.symm

end Logs

/-- Calls and power cuts, in any order: a store, what it held when it was last
opened, and the calls made on it since.  Each opening may have options of its
own. -/
inductive CutRun : Store -> Contents -> List Call -> Prop where
  | start {opts : Options} {s : Store}
      (hopen : Store.openWith {} opts = Except.ok s) : CutRun s empty []
  | call {s : Store} {base : Contents} {calls : List Call}
      (hrun : CutRun s base calls) {c : Call} (hplain : c.Plain)
      (hshort : c.Short) : CutRun (s.call c).1 base (calls ++ [c])
  | cut {s s' : Store} {base base' : Contents} {calls : List Call}
      (hrun : CutRun s base calls) {disk : Disk}
      (hcut : Disk.Cut s.writer.fileId s.dir.disk disk) {opts : Options}
      (hopen : Store.openWith { disk := disk } opts = Except.ok s')
      (hget : forall k, s'.get k = Except.ok (base' k)) :
      CutRun s' base' []

theorem settled_nothing : ({} : Disk).Settled := fun _ => rfl

/-- Every run leaves a store whose log is that of its calls. -/
theorem CutRun.logs {s : Store} {base : Contents} {calls : List Call}
    (h : CutRun s base calls) :
    exists chart n, Logs s base calls chart n := by
  induction h with
  | @start opts s hopen =>
      have hopenable : Openable ({} : Dir).disk (fun _ => []) [] :=
        Store.openable_nothing
      rcases openWith_opened hopenable opts with ⟨s', hopen', hopened, _⟩
      rw [hopen, Except.ok.injEq] at hopen'
      subst hopen'
      have hempty : logged (fun _ => []) s.writer.fileId = [] := by
        rw [logged, List.flatMap_eq_nil_iff]
        exact fun _ _ => rfl
      have hsettled : ({} : Dir).disk.Settled := settled_nothing
      refine ⟨_, _, Logs.of_opened hopened ?_ (hsettled.openWith hopen).1⟩
      rw [recorded, hempty]
      rfl
  | call _ hplain hshort ih =>
      rcases ih with ⟨chart, n, hlogs⟩
      exact hlogs.call hplain hshort
  | @cut s s' base base' calls _ disk hcut opts hopen hget ih =>
      rcases ih with ⟨chart, n, hlogs⟩
      rcases hlogs.reopen_cut hcut opts with
        ⟨reopened, j, kept, hopen', hopened, _, _, _⟩
      rw [hopen, Except.ok.injEq] at hopen'
      subst hopen'
      have hbase : recorded (Function.update chart s.writer.fileId kept)
          s'.writer.fileId = base' := by
        funext k
        have hk := Store.get_eq hopened.ok hopened.indexes k
        rw [hget k, Except.ok.injEq] at hk
        exact hk.symm
      have hsettled : ({ disk := disk } : Dir).disk.Settled :=
        hlogs.charted.settled_cut hcut
      exact ⟨_, _, Logs.of_opened hopened hbase (hsettled.openWith hopen).1⟩

/-- Whatever a power cut leaves opens, to the map that some of the calls made,
every one that landed on the disk among them. -/
theorem power_cut_keeps_landed {s : Store} {base : Contents}
    {calls : List Call} (h : CutRun s base calls) {disk : Disk}
    (hcut : Disk.Cut s.writer.fileId s.dir.disk disk) (opts : Options) :
    exists s' m, Store.openWith { disk := disk } opts = Except.ok s' ∧
      CoversLanded s.opts.sync base calls m ∧
      (forall k, s'.get k =
        Except.ok (appliedTo base (calls.take m) k)) ∧
      (forall k, k ∈ s'.keys ↔
        (appliedTo base (calls.take m) k).isSome) := by
  rcases h.logs with ⟨chart, n, hlogs⟩
  rcases hlogs.reopen_cut hcut opts with
    ⟨s', j, kept, hopen, hopened, hlow, hhigh, hrecorded⟩
  rcases hlogs.recoverable j hlow hhigh with ⟨m, hcovers, hmap⟩
  have hindexes := hopened.indexes
  rw [hrecorded, ← hmap] at hindexes
  exact ⟨s', m, hopen, hcovers, Store.get_eq hopened.ok hindexes,
    Store.mem_keys_iff hindexes⟩

def newStore (opts : Options) : Store where
  dir := (LogWriter.openFile {} 1).2
  keydir := ∅
  readers := [1]
  writer := (LogWriter.openFile {} 1).1
  opts := opts
  liveBytes := 0
  diskBytes := 0
  activeHints := []
  compacting := false
  restoring := false

theorem openWith_nothing (opts : Options) :
    Store.openWith {} opts = Except.ok (newStore opts) := rfl

theorem disk_cut_refl {s : Store} (hok : s.Ok)
    (hsettled : s.dir.disk.Settled) :
    Disk.Cut s.writer.fileId s.dir.disk s.dir.disk where
  others _ _ := rfl
  linked := hok.writer.linked
  kept := ⟨_, Nat.le_of_eq (hsettled _), (List.take_length ..).symm⟩
  settled := hsettled _
  hints _ _ h := h

def landedCalls : List Call :=
  [Call.put [97] [1] 5 6, Call.sync]

theorem cutRun_landedCalls :
    CutRun ((newStore {}).after landedCalls) empty landedCalls :=
  ((CutRun.start (openWith_nothing {})).call
    (c := Call.put [97] [1] 5 6) trivial (by decide)).call
    (c := Call.sync) trivial trivial

/-- A put and a sync, and a cut that takes nothing. -/
theorem power_cut_keeps_landed_put :
    exists s' m, Store.openWith
        { disk := ((newStore {}).after landedCalls).dir.disk } {} =
          Except.ok s' ∧
      CoversLanded SyncPolicy.everyWrite empty landedCalls m ∧
      (forall k, s'.get k =
        Except.ok (appliedTo empty (landedCalls.take m) k)) ∧
      (forall k, k ∈ s'.keys ↔
        (appliedTo empty (landedCalls.take m) k).isSome) := by
  rcases cutRun_landedCalls.logs with ⟨_, _, hlogs⟩
  have hsettled := hlogs.charted.settled rfl
  exact power_cut_keeps_landed cutRun_landedCalls
    (disk_cut_refl hlogs.ok hsettled) {}

def unsyncedCalls : List Call :=
  [Call.putDeferred [97] [1] 5 6, Call.delete [98] 7 8]

/-- A delete of a key that is not there answers, whatever the policy, without
syncing what came before it. -/
theorem absent_delete_lands_nothing :
    exists s disk s',
      CutRun s empty unsyncedCalls ∧
      s.opts.sync = SyncPolicy.everyWrite ∧
      (((newStore {}).after (unsyncedCalls.take 1)).call
        (Call.delete [98] 7 8)).1 = s ∧
      (((newStore {}).after (unsyncedCalls.take 1)).call
        (Call.delete [98] 7 8)).2 = Except.ok (some false) ∧
      Disk.Cut s.writer.fileId s.dir.disk disk ∧
      Store.openWith { disk := disk } {} = Except.ok s' ∧
      ¬exists m, 1 < m ∧ m <= unsyncedCalls.length ∧
        forall k, s'.get k =
          Except.ok (appliedTo empty (unsyncedCalls.take m) k) := by
  have hrun : CutRun ((newStore {}).after unsyncedCalls) empty
      unsyncedCalls :=
    ((CutRun.start (openWith_nothing {})).call
      (c := Call.putDeferred [97] [1] 5 6) trivial (by decide)).call
      (c := Call.delete [98] 7 8) trivial trivial
  rcases hrun.logs with ⟨_, _, hlogs⟩
  refine ⟨_, _, _, hrun, rfl, rfl, rfl, disk_cut_refl hlogs.ok
    (hlogs.charted.settled rfl), rfl, ?_⟩
  rintro ⟨m, hlow, hhigh, hget⟩
  have hm : m = 2 := Nat.le_antisymm hhigh hlow
  subst hm
  have hlost := hget [97]
  cases hlost

end Minicask
