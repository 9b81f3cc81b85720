import Libx.Lib.Records
import Libx.NetScan.Journal

set_option autoImplicit false

namespace Libx.NetScan

open Journal (replay)

-- An element without its two integers, which are not logged.
structure Row where
  isOpen : Bool
  mac : Text
  ip : Text
  what : Text
  timeIn : Text
  timeOut : Text
  setOpenSz : UInt32
deriving DecidableEq

def Elem.row (elem : Elem) : Row :=
  ⟨elem.isOpen, elem.mac, elem.ip, elem.what, elem.timeIn, elem.timeOut, elem.setOpenSz⟩

def changeRow (mac : Text) (change : Row → Option Row) : List Row → Option (List Row)
  | [] => none
  | row :: rest => if row.mac = mac then (change row).map (· :: rest) else (changeRow mac change rest).map (row :: ·)

def LogEvent.apply : LogEvent → List Row → Option (List Row)
  | .logon, _ => some []
  | .logout, rows => some rows
  | .arrived mac ip timeIn what, rows =>
      if mac ∈ rows.map Row.mac then none else some (rows ++ [⟨true, mac, ip, what, timeIn, [], 0⟩])
  | .closed mac ip timeIn timeOut, rows =>
      changeRow mac (fun row =>
        if row.isOpen = true ∧ row.ip = ip ∧ row.timeIn = timeIn then some { row with isOpen := false, timeOut } else none) rows
  | .opened mac ip timeOut timeIn, rows =>
      changeRow mac (fun row =>
        if row.isOpen = false ∧ row.timeOut = timeOut then
          some { row with isOpen := true, ip, timeIn, setOpenSz := row.setOpenSz + 1 }
        else none) rows

def arrivedLabels : List Text := ["35=D;48=".toList, ";55=".toList, ";52=".toList, ";106=".toList]
def closedLabels : List Text := ["35=G;48=".toList, ";55=".toList, ";52=".toList, ";53=".toList]
def openedLabels : List Text := ["35=F;48=".toList, ";55=".toList, ";53=".toList, ";52=".toList]

def readEvent (text : Text) : Option LogEvent :=
  if text = "35=A;".toList then some .logon
  else if text = "35=5;".toList then some .logout
  else match Records.readFields ';' arrivedLabels text with
    | some [mac, ip, timeIn, what] => some (.arrived mac ip timeIn what)
    | _ => match Records.readFields ';' closedLabels text with
      | some [mac, ip, timeIn, timeOut] => some (.closed mac ip timeIn timeOut)
      | _ => match Records.readFields ';' openedLabels text with
        | some [mac, ip, timeOut, timeIn] => some (.opened mac ip timeOut timeIn)
        | _ => none

def readLine (line : Text) : Option LogEvent := readEvent (line.dropWhile (· ≠ ' ')).tail

-- The file is appended to by one process after the other: a logon starts anew.
def rebuildLine (rows : Option (List Row)) (line : Text) : Option (List Row) :=
  match readLine line with
  | none => none
  | some .logon => some []
  | some event => rows.bind event.apply

def rebuild (file : Text) : Option (List Row) := (Records.linesOf '\n' file).foldl rebuildLine none

def Value (text : Text) : Prop := ';' ∉ text ∧ '\n' ∉ text
def Clock (text : Text) : Prop := ' ' ∉ text ∧ '\n' ∉ text

structure Elem.Legible (elem : Elem) : Prop where
  mac : Value elem.mac
  ip : Value elem.ip
  timeIn : Value elem.timeIn
  timeOut : Value elem.timeOut

structure LoggedScan.Legible (scan : LoggedScan) : Prop where
  triples : ∀ macip ∈ scan.triples, Value macip.1 ∧ Value macip.2.1 ∧ '\n' ∉ macip.2.2
  times : ∀ i, Value (scan.closing i).text ∧ Value (scan.adding i).text
  clocks : ∀ i, Clock (scan.logClosing i) ∧ Clock (scan.logAdding i)

def LogEvent.Legible : LogEvent → Prop
  | .logon => True
  | .logout => True
  | .arrived mac ip timeIn what => Value mac ∧ Value ip ∧ Value timeIn ∧ '\n' ∉ what
  | .closed mac ip timeIn timeOut => Value mac ∧ Value ip ∧ Value timeIn ∧ Value timeOut
  | .opened mac ip timeOut timeIn => Value mac ∧ Value ip ∧ Value timeOut ∧ Value timeIn

def LogLine.Legible (line : LogLine) : Prop := Clock line.now ∧ line.event.Legible

def LogLine.body (line : LogLine) : Text := line.now ++ ' ' :: line.event.arguments.flatten

section Reading

variable (first second third last : Text)

theorem read_weaved (labels : List Text) (kind next other end_ : Text) (shape : labels = [kind, next, other, end_])
    (marked : ∀ label ∈ [next, other, end_], Records.Marked ';' label) (clean : ';' ∉ first ∧ ';' ∉ second ∧ ';' ∉ third) :
    Records.readFields ';' labels (kind ++ (first ++ (next ++ (second ++ (other ++ (third ++ (end_ ++ last))))))) =
      some [first, second, third, last] := by
  have fields := Records.read_fields_weave ';' kind [next, other, end_] first [second, third, last] rfl marked fun value member => by
    obtain rfl | rfl | rfl : value = first ∨ value = second ∨ value = third := by simpa using member
    · exact clean.1
    · exact clean.2.1
    · exact clean.2.2
  rw [shape]
  simpa [Records.weave] using fields

theorem read_arrived (clean : ';' ∉ first ∧ ';' ∉ second ∧ ';' ∉ third) :
    readEvent (LogEvent.arrived first second third last).arguments.flatten = some (.arrived first second third last) := by
  have fields := read_weaved first second third last arrivedLabels _ _ _ _ rfl (by simp [Records.Marked]) clean
  have text : (LogEvent.arrived first second third last).arguments.flatten =
      "35=D;48=".toList ++ (first ++ (";55=".toList ++ (second ++ (";52=".toList ++ (third ++ (";106=".toList ++ last)))))) := by
    simp [LogEvent.arguments]
  rw [text, readEvent, if_neg (by simp), if_neg (by simp), fields]

theorem read_closed (clean : ';' ∉ first ∧ ';' ∉ second ∧ ';' ∉ third) :
    readEvent (LogEvent.closed first second third last).arguments.flatten = some (.closed first second third last) := by
  have fields := read_weaved first second third last closedLabels _ _ _ _ rfl (by simp [Records.Marked]) clean
  have text : (LogEvent.closed first second third last).arguments.flatten =
      "35=G;48=".toList ++ (first ++ (";55=".toList ++ (second ++ (";52=".toList ++ (third ++ (";53=".toList ++ last)))))) := by
    simp [LogEvent.arguments]
  have other (rest : Text) : Records.readFields ';' arrivedLabels ("35=G;48=".toList ++ rest) = none := rfl
  rw [text, readEvent, if_neg (by simp), if_neg (by simp), other, fields]

theorem read_opened (clean : ';' ∉ first ∧ ';' ∉ second ∧ ';' ∉ third) :
    readEvent (LogEvent.opened first second third last).arguments.flatten = some (.opened first second third last) := by
  have fields := read_weaved first second third last openedLabels _ _ _ _ rfl (by simp [Records.Marked]) clean
  have text : (LogEvent.opened first second third last).arguments.flatten =
      "35=F;48=".toList ++ (first ++ (";55=".toList ++ (second ++ (";53=".toList ++ (third ++ (";52=".toList ++ last)))))) := by
    simp [LogEvent.arguments]
  have arrival (rest : Text) : Records.readFields ';' arrivedLabels ("35=F;48=".toList ++ rest) = none := rfl
  have close (rest : Text) : Records.readFields ';' closedLabels ("35=F;48=".toList ++ rest) = none := rfl
  rw [text, readEvent, if_neg (by simp), if_neg (by simp), arrival, close, fields]

end Reading

theorem read_event (event : LogEvent) (legible : event.Legible) : readEvent event.arguments.flatten = some event := by
  cases event with
  | logon => rfl
  | logout => rfl
  | arrived mac ip timeIn what => exact read_arrived mac ip timeIn what ⟨legible.1.1, legible.2.1.1, legible.2.2.1.1⟩
  | closed mac ip timeIn timeOut => exact read_closed mac ip timeIn timeOut ⟨legible.1.1, legible.2.1.1, legible.2.2.1.1⟩
  | opened mac ip timeOut timeIn => exact read_opened mac ip timeOut timeIn ⟨legible.1.1, legible.2.1.1, legible.2.2.1.1⟩

theorem read_line (line : LogLine) (legible : line.Legible) : readLine line.body = some line.event := by
  have passed : ∀ c ∈ line.now, decide (c ≠ ' ') = true := fun c member => decide_eq_true fun same => legible.1.1 (same ▸ member)
  rw [readLine, LogLine.body, List.dropWhile_append_of_pos passed]
  exact read_event line.event legible.2

theorem line_unbroken (line : LogLine) (legible : line.Legible) : '\n' ∉ line.body := by
  obtain ⟨now, event⟩ := line
  obtain ⟨⟨_, clock⟩, values⟩ := legible
  cases event with
  | logon => simp [LogLine.body, LogEvent.arguments, clock]
  | logout => simp [LogLine.body, LogEvent.arguments, clock]
  | arrived mac ip timeIn what =>
      obtain ⟨⟨_, macLine⟩, ⟨_, ipLine⟩, ⟨_, timeLine⟩, whatLine⟩ := values
      simp [LogLine.body, LogEvent.arguments, clock, macLine, ipLine, timeLine, whatLine]
  | closed mac ip timeIn timeOut =>
      obtain ⟨⟨_, macLine⟩, ⟨_, ipLine⟩, ⟨_, inLine⟩, ⟨_, outLine⟩⟩ := values
      simp [LogLine.body, LogEvent.arguments, clock, macLine, ipLine, inLine, outLine]
  | opened mac ip timeOut timeIn =>
      obtain ⟨⟨_, macLine⟩, ⟨_, ipLine⟩, ⟨_, outLine⟩, ⟨_, inLine⟩⟩ := values
      simp [LogLine.body, LogEvent.arguments, clock, macLine, ipLine, outLine, inLine]

theorem log_lines (lines : List LogLine) (legible : ∀ line ∈ lines, line.Legible) :
    Records.linesOf '\n' (logText lines) = lines.map LogLine.body :=
  Records.lines_of_flat '\n' LogLine.body lines fun line member => line_unbroken line (legible line member)

def LogLine.apply (line : LogLine) : List Row → Option (List Row) := line.event.apply

def LogLine.Own (line : LogLine) : Prop := line.Legible ∧ line.event ≠ .logon

theorem rebuild_own_line (line : LogLine) (own : line.Own) (rows : Option (List Row)) :
    rebuildLine rows line.body = rows.bind line.apply := by
  obtain ⟨legible, other⟩ := own
  rw [rebuildLine, read_line line legible, LogLine.apply]
  cases event : line.event with
  | logon => exact absurd event other
  | logout => rfl
  | arrived => rfl
  | closed => rfl
  | opened => rfl

theorem rebuild_own (lines : List LogLine) (own : ∀ line ∈ lines, line.Own) (rows : Option (List Row)) :
    (lines.map LogLine.body).foldl rebuildLine rows = rows.bind (replay LogLine.apply lines) := by
  induction lines generalizing rows with
  | nil => cases rows <;> rfl
  | cons line lines ih =>
      rw [List.map_cons, List.foldl_cons, rebuild_own_line line (own line List.mem_cons_self),
        ih fun other member => own other (List.mem_cons_of_mem line member)]
      cases rows <;> rfl

theorem rebuild_session (before now : Text) (complete : before = [] ∨ before.getLast? = some '\n') (clock : Clock now)
    (lines : List LogLine) (own : ∀ line ∈ lines, line.Own) :
    rebuild (before ++ logText (⟨now, .logon⟩ :: lines)) = replay LogLine.apply lines [] := by
  have legible : ∀ line ∈ (⟨now, .logon⟩ :: lines : List LogLine), line.Legible := by
    intro line member
    rcases List.mem_cons.mp member with rfl | inside
    · exact ⟨clock, trivial⟩
    · exact (own line inside).1
  have logon (rows : Option (List Row)) : rebuildLine rows (LogLine.body ⟨now, .logon⟩) = some [] := by
    rw [rebuildLine, read_line _ (legible _ List.mem_cons_self)]
  rw [rebuild, Records.lines_of_append '\n' before _ complete, log_lines _ legible, List.foldl_append, List.map_cons,
    List.foldl_cons, logon, rebuild_own lines own, Option.bind_some]

section Rows

variable (mac : Text) (change : Row → Option Row)

theorem change_row_here (front back : List Row) (row : Row) (own : row.mac = mac) (first : mac ∉ front.map Row.mac) :
    changeRow mac change (front ++ row :: back) = (change row).map fun changed => front ++ changed :: back := by
  induction front with
  | nil => rw [List.nil_append, changeRow, if_pos own]; rfl
  | cons other front ih =>
      obtain ⟨apart, behind⟩ := not_or.mp (mt List.mem_cons.mpr first)
      rw [List.cons_append, changeRow, if_neg (Ne.symm apart), ih behind]
      cases change row <;> rfl

end Rows

@[simp] theorem row_mac (elem : Elem) : elem.row.mac = elem.mac := rfl

theorem rows_macs (elems : List Elem) : (elems.map Elem.row).map Row.mac = elems.map Elem.mac := by
  simp [Function.comp_def]

section Lines

variable (front : List Row) (elem : Elem) (back : List Row) (first : elem.mac ∉ front.map Row.mac)
include first

theorem closed_applies (now : Instant) (isOpen : elem.isOpen = true) :
    (LogEvent.closed elem.mac elem.ip elem.timeIn now.text).apply (front ++ elem.row :: back) =
      some (front ++ (elem.closed now).row :: back) := by
  rw [LogEvent.apply, change_row_here elem.mac _ front back elem.row rfl first]
  simp [Elem.row, Elem.closed, isOpen]

theorem opened_applies (now : Instant) (ip : Text) (isClosed : elem.isOpen = false) :
    (LogEvent.opened elem.mac ip elem.timeOut now.text).apply (front ++ elem.row :: back) =
      some (front ++ (elem.opened now ip).row :: back) := by
  rw [LogEvent.apply, change_row_here elem.mac _ front back elem.row rfl first]
  simp [Elem.row, Elem.opened, isClosed]

end Lines

theorem set_close_written (logNow : Text) (now : Instant) (elem after : Elem) (written : List LogLine)
    (run : elem.setCloseLogged logNow now = .ok (after, written)) :
    elem.isOpen = true ∧ after = elem.closed now ∧ written = [⟨logNow, .closed elem.mac elem.ip elem.timeIn now.text⟩] := by
  obtain ⟨closed, taken, made⟩ := (Fallible.bind_ok_iff _ _ _).mp run
  obtain ⟨rfl, rfl⟩ := Prod.mk.inj (Except.ok.inj made)
  rw [Elem.setClose] at taken
  split at taken
  · rename_i ready
    obtain rfl := Except.ok.inj taken
    exact ⟨ready.1, rfl, rfl⟩
  · contradiction

theorem close_absent_logged_cons (scan : LoggedScan) (i : Nat) (elem : Elem) (rest after : List Elem) (changed : Bool)
    (written : List LogLine) (run : Db.closeAbsentLogged scan i (elem :: rest) = .ok ((changed, after), written)) :
    ∃ here later others more, Db.closeAbsentLogged scan (i + 1) rest = .ok ((later, others), more) ∧
      after = elem.afterPass scan.macs (scan.closing i) :: others ∧ written = here ++ more ∧
      (elem.away scan.macs = true ∧ elem.isOpen = true ∧
          here = [⟨scan.logClosing i, .closed elem.mac elem.ip elem.timeIn (scan.closing i).text⟩] ∨
        elem.away scan.macs = false ∧ here = []) := by
  have behind (next : Elem) (here : List LogLine)
      (run : (Db.closeAbsentLogged scan (i + 1) rest >>= fun done =>
        pure ((elem.away scan.macs || done.1.1, next :: done.1.2), here ++ done.2)) = .ok ((changed, after), written)) :
      ∃ later others more, Db.closeAbsentLogged scan (i + 1) rest = .ok ((later, others), more) ∧ after = next :: others ∧
        written = here ++ more := by
    obtain ⟨⟨⟨later, others⟩, more⟩, taken, made⟩ := (Fallible.bind_ok_iff _ _ _).mp run
    obtain ⟨same, rfl⟩ := Prod.mk.inj (Except.ok.inj made)
    obtain ⟨_, rfl⟩ := Prod.mk.inj same
    exact ⟨later, others, more, taken, rfl, rfl⟩
  rw [Db.closeAbsentLogged] at run
  by_cases away : elem.away scan.macs = true
  · rw [if_pos away] at run
    obtain ⟨⟨next, here⟩, closes, run⟩ := (Fallible.bind_ok_iff _ _ _).mp run
    obtain ⟨isOpen, rfl, rfl⟩ := set_close_written _ _ elem next here closes
    obtain ⟨later, others, more, taken, rfl, rfl⟩ := behind _ _ run
    exact ⟨_, later, others, more, taken, by rw [Elem.afterPass, if_pos away], rfl, .inl ⟨away, isOpen, rfl⟩⟩
  · rw [if_neg away] at run
    obtain ⟨later, others, more, taken, rfl, shape⟩ := behind elem [] run
    exact ⟨[], later, others, more, taken, by rw [Elem.afterPass, if_neg away], shape, .inr ⟨by simpa using away, rfl⟩⟩

structure Rebuilds (rows after : List Row) (written : List LogLine) : Prop where
  replays : replay LogLine.apply written rows = some after
  own : ∀ line ∈ written, line.Own

theorem rebuilds_nothing (rows : List Row) : Rebuilds rows rows [] := ⟨rfl, fun _ absent => absurd absent List.not_mem_nil⟩

theorem rebuilds_append (rows middle after : List Row) (first second : List LogLine) (before : Rebuilds rows middle first)
    (behind : Rebuilds middle after second) : Rebuilds rows after (first ++ second) where
  replays := (Journal.replay_append_some LogLine.apply first second rows middle before.replays).trans behind.replays
  own := fun line member => (List.mem_append.mp member).elim (before.own line) (behind.own line)

theorem rebuilds_line (rows after : List Row) (line : LogLine) (applies : line.event.apply rows = some after) (own : line.Own) :
    Rebuilds rows after [line] where
  replays := (Journal.replay_one LogLine.apply line rows).trans applies
  own := fun _ member => List.mem_singleton.mp member ▸ own

theorem close_absent_rebuilds (scan : LoggedScan) (legible : scan.Legible) (i : Nat) (elems after : List Elem) (changed : Bool)
    (written : List LogLine) (front : List Row) (distinct : (front.map Row.mac ++ elems.map Elem.mac).Nodup)
    (elemsLegible : ∀ elem ∈ elems, elem.Legible)
    (run : Db.closeAbsentLogged scan i elems = .ok ((changed, after), written)) :
    after = closedFrom scan.macs scan.closing i elems ∧ (∀ elem ∈ after, elem.Legible) ∧
      Rebuilds (front ++ elems.map Elem.row) (front ++ after.map Elem.row) written := by
  induction elems generalizing i after changed written front with
  | nil =>
      obtain ⟨same, rfl⟩ := Prod.mk.inj (Except.ok.inj run)
      obtain ⟨_, rfl⟩ := Prod.mk.inj same
      exact ⟨rfl, elemsLegible, rebuilds_nothing _⟩
  | cons elem rest ih =>
      obtain ⟨here, later, others, more, taken, rfl, rfl, does⟩ :=
        close_absent_logged_cons scan i elem rest after changed written run
      have own : elem.Legible := elemsLegible elem List.mem_cons_self
      have first : elem.mac ∉ front.map Row.mac := by
        intro member
        exact (List.nodup_append.mp distinct).2.2 elem.mac member elem.mac List.mem_cons_self rfl
      have passed : (elem.afterPass scan.macs (scan.closing i)).Legible ∧
          Rebuilds (front ++ elem.row :: rest.map Elem.row)
            (front ++ (elem.afterPass scan.macs (scan.closing i)).row :: rest.map Elem.row) here := by
        rcases does with ⟨away, isOpen, rfl⟩ | ⟨stays, rfl⟩
        · rw [Elem.afterPass, if_pos away]
          have time := (legible.times i).1
          refine ⟨⟨own.mac, own.ip, own.timeIn, time⟩, rebuilds_line _ _ _ (closed_applies front elem _ first _ isOpen) ?_⟩
          exact ⟨⟨(legible.clocks i).1, own.mac, own.ip, own.timeIn, time⟩, by simp⟩
        · rw [Elem.afterPass, if_neg (by simp [stays])]
          exact ⟨own, rebuilds_nothing _⟩
      have moved : ((front ++ [(elem.afterPass scan.macs (scan.closing i)).row]).map Row.mac ++ rest.map Elem.mac).Nodup := by
        simpa [after_pass_mac] using distinct
      obtain ⟨rfl, restLegible, behind⟩ := ih (i + 1) others later more (front ++ [(elem.afterPass scan.macs (scan.closing i)).row])
        moved (fun other member => elemsLegible other (List.mem_cons_of_mem elem member)) taken
      refine ⟨rfl, ?_, rebuilds_append _ _ _ here more passed.2 (by simpa using behind)⟩
      intro other member
      rcases List.mem_cons.mp member with rfl | inside
      · exact passed.1
      · exact restLegible other inside

def Reopens (db after : Db) (logNow : Text) (now : Instant) (ip : Text) (written : List LogLine) : Prop :=
  ∃ idx elem, db.elems[idx]? = some elem ∧ elem.isOpen = false ∧ after = db.reopened idx elem now ip ∧
    written = [⟨logNow, .opened elem.mac ip elem.timeOut now.text⟩]

section Triples

variable (seen : Seen) (db : Db) (tracks : Tracks seen db)
include tracks

theorem created_rebuilds (logNow : Text) (now : Instant) (macip : MacIp) (new : db.macKeys macip.1 = none) (clock : Clock logNow)
    (time : Value now.text) (triple : Value macip.1 ∧ Value macip.2.1 ∧ '\n' ∉ macip.2.2) :
    Rebuilds (db.elems.map Elem.row) ((db.created now macip).elems.map Elem.row)
      [⟨logNow, .arrived macip.1 macip.2.1 now.text macip.2.2⟩] := by
  refine rebuilds_line _ _ _ ?_ ⟨⟨clock, triple.1, triple.2.1, time, triple.2.2⟩, by simp⟩
  have fresh : macip.1 ∉ (db.elems.map Elem.row).map Row.mac := by
    rw [rows_macs]
    intro member
    obtain ⟨elem, inside, own⟩ := List.mem_map.mp member
    exact new_unlisted seen db tracks macip.1 new elem inside own
  rw [LogEvent.apply, if_neg fresh]
  simp [Db.created, Db.setIpKey, Elem.row, Elem.new]

theorem reopened_rebuilds (logNow : Text) (now : Instant) (ip : Text) (idx : Nat) (elem : Elem) (here : db.elems[idx]? = some elem)
    (isClosed : elem.isOpen = false) (legible : elem.Legible) (clock : Clock logNow) (time : Value now.text) (address : Value ip) :
    Rebuilds (db.elems.map Elem.row) ((db.reopened idx elem now ip).elems.map Elem.row)
      [⟨logNow, .opened elem.mac ip elem.timeOut now.text⟩] := by
  refine rebuilds_line _ _ _ ?_ ⟨⟨clock, legible.mac, address, legible.timeOut, time⟩, by simp⟩
  obtain ⟨bound, own⟩ := List.getElem?_eq_some_iff.mp here
  have split : db.elems = db.elems.take idx ++ elem :: db.elems.drop (idx + 1) := by
    rw [← own, ← List.drop_eq_getElem_cons bound, List.take_append_drop]
  have first : elem.mac ∉ ((db.elems.take idx).map Elem.row).map Row.mac := by
    have distinct := macs_distinct seen db tracks
    rw [split, List.map_append, List.map_cons] at distinct
    rw [rows_macs]
    intro member
    exact (List.nodup_append.mp distinct).2.2 elem.mac member elem.mac List.mem_cons_self rfl
  have changed : (db.reopened idx elem now ip).elems = db.elems.take idx ++ elem.opened now ip :: db.elems.drop (idx + 1) := by
    rw [Db.reopened, List.set_eq_take_append_cons_drop, if_pos bound]
  have applies := opened_applies ((db.elems.take idx).map Elem.row) elem ((db.elems.drop (idx + 1)).map Elem.row) first now ip isClosed
  rw [changed, List.map_append, List.map_cons, ← applies]
  congr 1
  rw [← List.map_cons, ← List.map_append, ← split]

omit tracks in
theorem set_open_at_written (logNow : Text) (now : Instant) (ip : Text) (idx : Nat) (elem : Elem)
    (here : db.elems[idx]? = some elem) (after : Db) (written : List LogLine)
    (run : (db.setIpKey ip idx).setOpenAtLogged idx logNow now ip = .ok (after, written)) :
    elem.isOpen = false ∧ after = db.reopened idx elem now ip ∧ written = [⟨logNow, .opened elem.mac ip elem.timeOut now.text⟩] := by
  obtain ⟨found, at_, run⟩ := (Fallible.bind_ok_iff _ _ _).mp run
  obtain rfl : elem = found := by
    rw [Db.elemAt, Db.setIpKey, here] at at_
    exact Except.ok.inj at_
  obtain ⟨⟨next, lines⟩, opens, made⟩ := (Fallible.bind_ok_iff _ _ _).mp run
  obtain ⟨rfl, rfl⟩ := Prod.mk.inj (Except.ok.inj made)
  obtain ⟨opened, sets, made⟩ := (Fallible.bind_ok_iff _ _ _).mp opens
  obtain ⟨rfl, rfl⟩ := Prod.mk.inj (Except.ok.inj made)
  rw [Elem.setOpen] at sets
  split at sets
  · rename_i ready
    obtain rfl := Except.ok.inj sets
    exact ⟨ready.1, rfl, rfl⟩
  · contradiction

omit tracks in
theorem set_open_reopens (logNow : Text) (now : Instant) (ip : Text) (idx : Nat) (elem : Elem) (here : db.elems[idx]? = some elem)
    (changed : Bool) (after : Db) (written : List LogLine)
    (run : ((db.setIpKey ip idx).setOpenAtLogged idx logNow now ip >>= fun done => pure ((true, done.1), done.2)) =
      .ok ((changed, after), written)) : Reopens db after logNow now ip written := by
  obtain ⟨⟨opened, lines⟩, taken, made⟩ := (Fallible.bind_ok_iff _ _ _).mp run
  obtain ⟨same, rfl⟩ := Prod.mk.inj (Except.ok.inj made)
  obtain ⟨_, rfl⟩ := Prod.mk.inj same
  obtain ⟨isClosed, rfl, rfl⟩ := set_open_at_written db logNow now ip idx elem here opened lines taken
  exact ⟨idx, elem, here, isClosed, rfl, rfl⟩

theorem add_triple_written (logNow : Text) (now : Instant) (macip : MacIp) (changed : Bool) (after : Db) (written : List LogLine)
    (run : db.addTripleLogged logNow now macip = .ok ((changed, after), written)) :
    (db.macKeys macip.1 = none ∧ after = db.created now macip ∧
        written = [⟨logNow, .arrived macip.1 macip.2.1 now.text macip.2.2⟩]) ∨
      (after = db ∧ written = []) ∨ Reopens db after logNow now macip.2.1 written := by
  obtain ⟨mac, ip, what⟩ := macip
  rw [Db.addTripleLogged] at run
  cases key : db.macKeys mac with
  | none =>
      rw [key] at run
      obtain ⟨same, rfl⟩ := Prod.mk.inj (Except.ok.inj run)
      obtain ⟨_, rfl⟩ := Prod.mk.inj same
      exact .inl ⟨rfl, rfl, rfl⟩
  | some idx =>
      obtain ⟨elem, here, own⟩ := key_elem seen db tracks mac idx key
      cases known : db.ipKeys ip with
      | none =>
          simp only [key, known] at run
          obtain ⟨⟨opened, lines⟩, taken, run⟩ := (Fallible.bind_ok_iff _ _ _).mp run
          obtain ⟨found, _, run⟩ := (Fallible.bind_ok_iff _ _ _).mp run
          split at run
          · obtain ⟨same, rfl⟩ := Prod.mk.inj (Except.ok.inj run)
            obtain ⟨_, rfl⟩ := Prod.mk.inj same
            obtain ⟨isClosed, rfl, rfl⟩ := set_open_at_written db logNow now ip idx elem here opened lines taken
            exact .inr (.inr ⟨idx, elem, here, isClosed, rfl, rfl⟩)
          · contradiction
      | some idxIp =>
          simp only [key, known] at run
          by_cases equal : idx = idxIp
          · rw [if_pos equal] at run
            obtain ⟨current, _, run⟩ := (Fallible.bind_ok_iff _ _ _).mp run
            cases current with
            | true =>
                obtain ⟨same, rfl⟩ := Prod.mk.inj (Except.ok.inj run)
                obtain ⟨_, rfl⟩ := Prod.mk.inj same
                exact .inr (.inl ⟨rfl, rfl⟩)
            | false => exact .inr (.inr (set_open_reopens db logNow now ip idx elem here changed after written run))
          · rw [if_neg equal] at run
            exact .inr (.inr (set_open_reopens db logNow now ip idx elem here changed after written run))

theorem add_triple_rebuilds (elemsLegible : ∀ elem ∈ db.elems, elem.Legible) (logNow : Text) (now : Instant) (macip : MacIp)
    (clock : Clock logNow) (time : Value now.text) (triple : Value macip.1 ∧ Value macip.2.1 ∧ '\n' ∉ macip.2.2) (changed : Bool)
    (after : Db) (written : List LogLine) (run : db.addTripleLogged logNow now macip = .ok ((changed, after), written)) :
    (∀ elem ∈ after.elems, elem.Legible) ∧ Rebuilds (db.elems.map Elem.row) (after.elems.map Elem.row) written := by
  rcases add_triple_written seen db tracks logNow now macip changed after written run with
    ⟨new, rfl, rfl⟩ | ⟨rfl, rfl⟩ | ⟨idx, elem, here, isClosed, rfl, rfl⟩
  · refine ⟨fun elem member => ?_, created_rebuilds seen db tracks logNow now macip new clock time triple⟩
    rcases created_mem now macip db elem member with old | rfl
    · exact elemsLegible elem old
    · exact ⟨triple.1, triple.2.1, time, List.not_mem_nil, List.not_mem_nil⟩
  · exact ⟨elemsLegible, rebuilds_nothing _⟩
  · have own := elemsLegible elem (List.mem_of_getElem? here)
    refine ⟨fun other member => ?_, reopened_rebuilds seen db tracks logNow now macip.2.1 idx elem here isClosed own clock time triple.2.1⟩
    rcases List.mem_or_eq_of_mem_set member with old | rfl
    · exact elemsLegible other old
    · exact ⟨own.mac, triple.2.1, time, own.timeOut⟩

end Triples

theorem add_triples_logged_cons (scan : LoggedScan) (j : Nat) (macip : MacIp) (rest : List MacIp) (db after : Db) (changed : Bool)
    (written : List LogLine) (run : db.addTriplesLogged scan j (macip :: rest) = .ok ((changed, after), written)) :
    ∃ here middle first later more,
      db.addTripleLogged (scan.logAdding j) (scan.adding j) macip = .ok ((here, middle), first) ∧
        middle.addTriplesLogged scan (j + 1) rest = .ok ((later, after), more) ∧ written = first ++ more := by
  obtain ⟨⟨⟨here, middle⟩, first⟩, taken, run⟩ := (Fallible.bind_ok_iff _ _ _).mp run
  obtain ⟨⟨⟨later, last⟩, more⟩, behind, made⟩ := (Fallible.bind_ok_iff _ _ _).mp run
  obtain ⟨same, rfl⟩ := Prod.mk.inj (Except.ok.inj made)
  obtain ⟨_, rfl⟩ := Prod.mk.inj same
  exact ⟨here, middle, first, later, more, taken, behind, rfl⟩

theorem add_triples_rebuilds (scan : LoggedScan) (legible : scan.Legible) (triples : List MacIp)
    (values : ∀ macip ∈ triples, Value macip.1 ∧ Value macip.2.1 ∧ '\n' ∉ macip.2.2) (j : Nat) (seen : Seen) (db after : Db)
    (tracks : Tracks seen db) (elemsLegible : ∀ elem ∈ db.elems, elem.Legible) (changed : Bool) (written : List LogLine)
    (run : db.addTriplesLogged scan j triples = .ok ((changed, after), written)) :
    (∀ elem ∈ after.elems, elem.Legible) ∧ Rebuilds (db.elems.map Elem.row) (after.elems.map Elem.row) written := by
  induction triples generalizing j seen db changed written with
  | nil =>
      obtain ⟨same, rfl⟩ := Prod.mk.inj (Except.ok.inj run)
      obtain ⟨_, rfl⟩ := Prod.mk.inj same
      exact ⟨elemsLegible, rebuilds_nothing _⟩
  | cons macip rest ih =>
      obtain ⟨here, middle, first, later, more, taken, behind, rfl⟩ :=
        add_triples_logged_cons scan j macip rest db after changed written run
      have plain : db.addTriple (scan.adding j) macip = .ok (here, middle) := by
        rw [← add_triple_plain (scan.logAdding j), taken]
        rfl
      have tracked := add_triple_tracks seen db tracks (scan.adding j) macip here middle plain
      obtain ⟨middleLegible, rebuilt⟩ := add_triple_rebuilds seen db tracks elemsLegible _ _ macip (legible.clocks j).2
        (legible.times j).2 (values macip List.mem_cons_self) here middle first taken
      obtain ⟨afterLegible, others⟩ := ih (fun other member => values other (List.mem_cons_of_mem macip member)) (j + 1)
        (seen.add macip) middle tracked middleLegible later more behind
      exact ⟨afterLegible, rebuilds_append _ _ _ first more rebuilt others⟩

theorem scan_rebuilds (scan : LoggedScan) (legible : scan.Legible) (seen : Seen) (db after : Db) (tracks : Tracks seen db)
    (elemsLegible : ∀ elem ∈ db.elems, elem.Legible) (written : List LogLine)
    (run : scanStepLogged scan db = .ok (after, written)) :
    Tracks (seen.scan scan.toScan) after ∧ (∀ elem ∈ after.elems, elem.Legible) ∧
      Rebuilds (db.elems.map Elem.row) (after.elems.map Elem.row) written := by
  have plain : scanStep scan.toScan db = .ok after := by
    rw [← scan_step_plain, run]
    rfl
  obtain ⟨done, called, same⟩ := (Fallible.map_ok_iff _ _ _).mp run
  obtain ⟨⟨⟨closed, elems⟩, first⟩, closes, called⟩ := (Fallible.bind_ok_iff _ _ _).mp called
  obtain ⟨⟨⟨added, last⟩, more⟩, adds, result⟩ := (Fallible.bind_ok_iff _ _ _).mp called
  obtain rfl := Except.ok.inj result
  obtain ⟨rfl, rfl⟩ := Prod.mk.inj same
  obtain ⟨rfl, closedLegible, before⟩ := close_absent_rebuilds scan legible 0 db.elems elems closed first []
    (by simpa using macs_distinct seen db tracks) elemsLegible closes
  obtain ⟨afterLegible, behind⟩ := add_triples_rebuilds scan legible scan.triples legible.triples 0 (seen.enter scan.toScan) _ last
    (enter_tracks seen db scan.toScan tracks) closedLegible added more adds
  exact ⟨scan_tracks seen scan.toScan db last tracks plain, afterLegible, rebuilds_append _ _ _ first more before behind⟩

theorem journal_rebuilds (before logNow : Text) (scans : List LoggedScan) (db : Db) (lines : List LogLine)
    (complete : before = [] ∨ before.getLast? = some '\n') (clock : Clock logNow) (legible : ∀ scan ∈ scans, scan.Legible)
    (run : runScansLogged logNow scans = .ok (db, lines)) :
    runScans (scans.map LoggedScan.toScan) = .ok db ∧ rebuild (before ++ logText lines) = some (db.elems.map Elem.row) := by
  obtain ⟨⟨last, written⟩, runs, same⟩ := (Fallible.map_ok_iff _ _ _).mp run
  obtain ⟨rfl, rfl⟩ := Prod.mk.inj same
  constructor
  · rw [runScans, ← Journal.run_logged_state scanStep LoggedScan.toScan scanStepLogged scan_step_plain scans Db.empty, runs]
    rfl
  · obtain ⟨replays, own⟩ := Journal.run_logged_replays scanStepLogged LogLine.apply (fun db => db.elems.map Elem.row)
      (fun db => (∃ seen, Tracks seen db) ∧ ∀ elem ∈ db.elems, elem.Legible) LoggedScan.Legible LogLine.Own
      (fun scan db next lines scanLegible good taken => by
        obtain ⟨⟨seen, tracks⟩, elemsLegible⟩ := good
        obtain ⟨tracked, nextLegible, rebuilt⟩ := scan_rebuilds scan scanLegible seen db next tracks elemsLegible lines taken
        exact ⟨⟨⟨_, tracked⟩, nextLegible⟩, rebuilt.replays, rebuilt.own⟩)
      scans legible Db.empty last written ⟨⟨nothingSeen, empty_tracks⟩, by simp [Db.empty]⟩ runs
    rw [rebuild_session before logNow complete clock written own]
    exact replays

def loggedAt (time : Text) (secs : UInt32) (triples : List MacIp) : LoggedScan :=
  { triples, closing := fun _ => ⟨time, secs⟩, adding := fun _ => ⟨time, secs⟩, logClosing := fun _ => time,
    logAdding := fun _ => time }

theorem logged_at_legible (time : Text) (secs : UInt32) (triples : List MacIp) (value : Value time) (clock : Clock time)
    (values : ∀ macip ∈ triples, Value macip.1 ∧ Value macip.2.1 ∧ '\n' ∉ macip.2.2) : (loggedAt time secs triples).Legible :=
  ⟨values, fun _ => ⟨value, value⟩, fun _ => ⟨clock, clock⟩⟩

theorem journal_rebuilds_return :
    let scans := [loggedAt "1".toList 1 [("aa".toList, "10".toList, "Zyxel".toList)], loggedAt "2".toList 2 [],
      loggedAt "3".toList 3 [("aa".toList, "11".toList, [])]]
    ∃ db lines, runScansLogged "0".toList scans = .ok (db, lines) ∧ runScans (scans.map LoggedScan.toScan) = .ok db ∧
      rebuild ("old\n".toList ++ logText lines) = some (db.elems.map Elem.row) := by
  intro scans
  have values : ∀ macip ∈ [("aa".toList, "10".toList, "Zyxel".toList), ("aa".toList, "11".toList, [])],
      Value macip.1 ∧ Value macip.2.1 ∧ '\n' ∉ macip.2.2 := by simp [Value]
  have legible : ∀ scan ∈ scans, scan.Legible := by
    intro scan member
    obtain rfl | rfl | rfl : scan = loggedAt _ _ _ ∨ scan = loggedAt _ _ _ ∨ scan = loggedAt _ _ _ := by simpa [scans] using member
    · exact logged_at_legible _ _ _ (by simp [Value]) (by simp [Clock]) fun macip inside => values macip (by simp_all)
    · exact logged_at_legible _ _ _ (by simp [Value]) (by simp [Clock]) (by simp)
    · exact logged_at_legible _ _ _ (by simp [Value]) (by simp [Clock]) fun macip inside => values macip (by simp_all)
  obtain ⟨done, run⟩ : ∃ done, runScansLogged "0".toList scans = .ok done := ⟨_, rfl⟩
  exact ⟨done.1, done.2, run, journal_rebuilds "old\n".toList "0".toList scans done.1 done.2 (.inr rfl) (by simp [Clock]) legible run⟩

end Libx.NetScan
