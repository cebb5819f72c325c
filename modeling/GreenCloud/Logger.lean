import GreenCloud.DriverData

/-! `Logger`: the columns that `EditLine` writes into the buffer of a line. -/

namespace GreenCloud

open CLib

/-- A local time for which `asctime` is defined; `year` is `tm_year + 1900`. -/
structure Tm where
  sec : Fin 61
  min : Fin 60
  hour : Fin 24
  mday : Fin 32
  mon : Fin 12
  year : Nat
  wday : Fin 7
  year_ge : 1000 ≤ year
  year_le : year ≤ 9999

namespace Tm

def wdayName : Vector String 7 := #v["Sun", "Mon", "Tue", "Wed", "Thu", "Fri", "Sat"]

def monName : Vector String 12 :=
  #v["Jan", "Feb", "Mar", "Apr", "May", "Jun", "Jul", "Aug", "Sep", "Oct", "Nov", "Dec"]

def field (c : UInt8) (width n : Nat) : Bytes :=
  List.replicate (width - (decimal n).length) c ++ decimal n

/-- `"%.3s %.3s%3d %.2d:%.2d:%.2d %d"` -/
def text (t : Tm) : Bytes :=
  ascii wdayName[t.wday] ++ 32 :: (ascii monName[t.mon] ++ (field 32 3 t.mday ++ 32 ::
    (field 48 2 t.hour ++ 58 :: (field 48 2 t.min ++ 58 :: (field 48 2 t.sec ++ 32 ::
      decimal t.year)))))

/-- What `ctime` returns for the time. -/
def asctime (t : Tm) : Bytes := t.text ++ [10, 0]

end Tm

inductive Loglvl
  | error
  | info
  | debug
  deriving DecidableEq

def Loglvl.value : Loglvl → Nat
  | error => 0
  | info => 1
  | debug => 2

/-- `lvl_str` -/
def Loglvl.str : Loglvl → Bytes
  | error => ascii "Error"
  | info => ascii "Info"
  | debug => ascii "Debug"

/-- `file` is what has been written to `m_file`. -/
structure Logger where
  file : Bytes
  lvl : Loglvl

namespace Logger

abbrev dateLen : UInt64 := 27
abbrev idLen : UInt64 := 8
abbrev filenameLen : UInt64 := 29
abbrev lineLen : UInt64 := 6
abbrev typeLen : UInt64 := 7

abbrev basicLineLen : UInt64 := dateLen + idLen + filenameLen + lineLen + typeLen + 1

/-- The loop that ends the date at its newline. -/
def cutNewline : Bytes → Option Bytes
  | [] => none
  | c :: p => if c = 0 then some (c :: p) else if c = 10 then some (0 :: p)
    else (cutNewline p).map (c :: ·)

def fillSpace : Nat → Cursor → Option Cursor
  | 0, run => some run
  | i + 1, run => (run.put 32).bind (fillSpace i)

/-- The first loop of `AddStr`, with its count. -/
def copy : Bytes → Cursor → UInt64 → Option (Cursor × UInt64)
  | [], _, _ => none
  | c :: src, dest, i => if c = 0 then some (dest, i)
    else (dest.put c).bind fun dest => copy src dest (i + 1)

theorem toNat_succ {i max : UInt64} (h : i < max) : (i + 1).toNat = i.toNat + 1 := by
  have hlt := UInt64.lt_iff_toNat_lt.mp h
  have hmax := max.toNat_lt
  rw [UInt64.toNat_add]
  exact Nat.mod_eq_of_lt (by change i.toNat + 1 < _; omega)

theorem ite_eq_max {i max : UInt64} (h : i.toNat ≤ max.toNat) :
    (if i < max then max else i) = max := by
  split
  · rfl
  · rename_i hnot
    rw [UInt64.lt_iff_toNat_lt] at hnot
    exact UInt64.toNat_inj.mp (by omega)

/-- The second loop of `AddStr`. -/
def pad (max : UInt64) (dest : Cursor) (i : UInt64) : Option (Cursor × UInt64) :=
  if h : i < max then (dest.put 32).bind fun dest => pad max dest (i + 1) else some (dest, i)
termination_by max.toNat - i.toNat
decreasing_by
  have hlt := UInt64.lt_iff_toNat_lt.mp h
  have hsucc := toNat_succ h
  omega

/-- `max - i` is a `size_t`. -/
def addStr (dest : Cursor) (src : Bytes) (max : UInt64) : Option Cursor := do
  let (dest, i) ← copy src dest 0
  let (dest, i) ← pad max dest i
  fillSpace (max - i).toNat dest

/-- The buffer behind `EditLine`; `none` where it writes outside of it. -/
def editLine (ret : Bytes) (now : Tm) (pid : Int32) (fileName : Bytes) (line : Int32)
    (lvlStr : Bytes) : Option Bytes := do
  let timeStr ← cutNewline now.asctime
  let run ← addStr (.start ret) timeStr dateLen
  let run ← addStr run (decimalInt pid.toInt ++ [0]) idLen
  let run ← addStr run fileName filenameLen
  let run ← addStr run (decimalInt line.toInt ++ [0]) lineLen
  let run ← addStr run lvlStr typeLen
  return run.object

/-- The loop up to the first `/` or the end. -/
def toSlash : Bytes → Option Bytes
  | [] => none
  | c :: p => if c = 0 ∨ c = 47 then some (c :: p) else toSlash p

def getFileNameFromFullName (fullName : Bytes) : Option Bytes := do
  match ← toSlash fullName with
  | [] => none
  | c :: file => if c ≠ 0 then some file else some fullName

/-- `block` is the memory that `new char[]` gets, and `thread` how the id of the thread prints. -/
def write (log : Logger) (block : Nat → UInt8) (now : Tm) (pid : Int32) (thread : Bytes)
    (lvl : Loglvl) (msg srcFile : Bytes) (line : Int32) : Option Logger :=
  if lvl.value ≤ log.lvl.value then do
    let fullLine := (uninit block basicLineLen.toNat).set (basicLineLen.toNat - 1) 0
    let file ← getFileNameFromFullName (srcFile ++ [0])
    let fullLine ← editLine fullLine now pid file line (lvl.str ++ [0])
    let text ← cstr fullLine
    return { log with file := log.file ++ (text ++ thread ++ ascii "  " ++ msg ++ ascii "\n") }
  else some log

def spaces (n : Nat) : Bytes := .replicate n 32

def column (width : Nat) (s : Bytes) : Bytes := (s ++ spaces width).take width

def layout (now : Tm) (pid : Int32) (file : Bytes) (line : Int32) (lvl : Loglvl) : Bytes :=
  column 27 now.text ++ (column 8 (decimalInt pid.toInt) ++ (column 29 file ++
    (column 6 (decimalInt line.toInt) ++ column 7 lvl.str)))

variable {s src file fileName ret : Bytes} {dest : Cursor} {max : UInt64}

@[simp] theorem length_spaces (n : Nat) : (spaces n).length = n := List.length_replicate

theorem length_column (width : Nat) (s : Bytes) : (column width s).length = width := by
  rw [column, List.length_take, List.length_append, length_spaces]
  omega

theorem column_of_le (h : s.length ≤ width) : column width s = s ++ spaces (width - s.length) := by
  rw [column, List.take_append, List.take_of_length_le h, spaces, List.take_replicate, spaces]
  congr 2
  omega

/-- The columns start at 0, 27, 35, 64 and 70. -/
theorem length_layout (now : Tm) (pid : Int32) (file : Bytes) (line : Int32) (lvl : Loglvl) :
    (layout now pid file line lvl).length = 77 := by
  simp only [layout, List.length_append, length_column]

theorem fillSpace_eq (n : Nat) (run : Cursor) : fillSpace n run = run.write (spaces n) := by
  induction n generalizing run with
  | zero => rfl
  | succ n ih =>
    rw [fillSpace, spaces, List.replicate_succ, Cursor.write]
    congr 1
    funext run
    exact ih run

theorem copy_eq (h : cstr src = some s) (dest : Cursor) (i : UInt64) :
    copy src dest i = (dest.write s).map fun dest => (dest, i + .ofNat s.length) := by
  obtain ⟨hs, t, rfl⟩ := cstr_eq_some.mp h
  clear h
  induction s generalizing dest i with
  | nil => simp [copy, Cursor.write]
  | cons c s ih =>
    simp only [List.mem_cons, not_or] at hs
    rw [List.cons_append, copy, if_neg (Ne.symm hs.1), Cursor.write, Option.map_bind]
    congr 1
    funext dest
    have hcount : i + 1 + .ofNat s.length = i + .ofNat (s.length + 1) := by
      rw [UInt64.ofNat_add, UInt64.add_assoc, UInt64.add_comm 1]
      rfl
    rw [ih dest (i + 1) hs.2, hcount]
    rfl

theorem pad_eq (max : UInt64) (dest : Cursor) (i : UInt64) :
    pad max dest i = (dest.write (spaces (max.toNat - i.toNat))).map fun dest =>
      (dest, if i < max then max else i) := by
  induction dest, i using pad.induct max with
  | case1 dest i h ih =>
    have hlt := UInt64.lt_iff_toNat_lt.mp h
    have hsucc := toNat_succ h
    have hspaces : spaces (max.toNat - i.toNat) = 32 :: spaces (max.toNat - (i + 1).toNat) := by
      rw [spaces, spaces, ← List.replicate_succ]
      congr 1
      omega
    have hend : (i + 1).toNat ≤ max.toNat := by omega
    rw [pad, dif_pos h, hspaces, Cursor.write, Option.map_bind, if_pos h]
    congr 1
    funext dest
    rw [ih dest, ite_eq_max hend]
    rfl
  | case2 dest i h =>
    have hle : max.toNat ≤ i.toNat := Nat.le_of_not_lt (mt UInt64.lt_iff_toNat_lt.mpr h)
    rw [pad, dif_neg h, Nat.sub_eq_zero_of_le hle, if_neg h]
    rfl

theorem copy_of_le (h : cstr src = some s) (hcopy : s.length ≤ dest.after.length)
    (hafter : dest.after.length < 2 ^ 63) :
    ∃ i : UInt64, i.toNat = s.length ∧
      copy src dest 0 = some (⟨dest.before ++ s, dest.after.drop s.length⟩, i) := by
  refine ⟨0 + .ofNat s.length, ?_, ?_⟩
  · rw [UInt64.zero_add, UInt64.toNat_ofNat']
    exact Nat.mod_eq_of_lt (by omega)
  · rw [copy_eq h, Cursor.write_eq, if_pos hcopy, Option.map_some]

theorem addStr_of_le (h : cstr src = some s) (hroom : max.toNat ≤ dest.after.length)
    (hafter : dest.after.length < 2 ^ 63) (hfits : s.length ≤ max.toNat) :
    addStr dest src max =
      some ⟨dest.before ++ column max.toNat s, dest.after.drop max.toNat⟩ := by
  obtain ⟨i, hi, hcopy⟩ := copy_of_le h (by omega : s.length ≤ dest.after.length) hafter
  have hpad : max.toNat - s.length ≤ (dest.after.drop s.length).length := by
    rw [List.length_drop]
    omega
  have hend : i.toNat ≤ max.toNat := by omega
  have hzero : (max - max).toNat = 0 := by rw [UInt64.sub_self]; rfl
  rw [addStr, hcopy]
  simp only [Option.bind_eq_bind, Option.bind_some, pad_eq, hi, Cursor.write_eq, length_spaces,
    hpad, ↓reduceIte, Option.map_some, ite_eq_max hend, hzero, fillSpace]
  rw [column_of_le hfits, List.append_assoc, List.drop_drop, Nat.add_sub_cancel' hfits]

/-- Behind a field that does not fit, `max - i` wraps to more than 2^63, and `FillSpace` runs out
of the object. -/
theorem addStr_of_lt (h : cstr src = some s) (hafter : dest.after.length < 2 ^ 63)
    (hlong : max.toNat < s.length) : addStr dest src max = none := by
  by_cases hle : s.length ≤ dest.after.length
  · obtain ⟨i, hi, hcopy⟩ := copy_of_le h hle hafter
    have hlt : ¬ i < max := by
      rw [UInt64.lt_iff_toNat_lt]
      omega
    have hmany : (max - i).toNat = 2 ^ 64 - (s.length - max.toNat) := by
      rw [UInt64.toNat_sub, hi]
      omega
    rw [addStr, hcopy]
    simp only [Option.bind_eq_bind, Option.bind_some, pad_eq, hi, if_neg hlt,
      Nat.sub_eq_zero_of_le (Nat.le_of_lt hlong), Cursor.write_eq, length_spaces, Nat.zero_le,
      ↓reduceIte, Option.map_some, fillSpace_eq, hmany]
    refine if_neg ?_
    rw [List.length_drop, List.length_drop]
    omega
  · rw [addStr, copy_eq h, Cursor.write_eq, if_neg hle]
    rfl

theorem cutNewline_append (hnul : 0 ∉ s) (hline : 10 ∉ s) (rest : Bytes) :
    cutNewline (s ++ 10 :: rest) = some (s ++ 0 :: rest) := by
  induction s with
  | nil => rfl
  | cons c s ih =>
    simp only [List.mem_cons, not_or] at hnul hline
    rw [List.cons_append, cutNewline, if_neg (Ne.symm hnul.1), if_neg (Ne.symm hline.1),
      ih hnul.2 hline.2]
    rfl

theorem le_of_mem_decimal (h : c ∈ decimal n) : 32 ≤ c := by
  have hdigit := isDigit_of_mem_decimal h
  rw [isDigit, Bool.and_eq_true, decide_eq_true_iff] at hdigit
  exact UInt8.le_trans (by decide) hdigit.1

theorem le_of_mem_field (hd : 32 ≤ d) (h : c ∈ Tm.field d width n) : 32 ≤ c := by
  rw [Tm.field, List.mem_append] at h
  rcases h with h | h
  · rwa [List.eq_of_mem_replicate h]
  · exact le_of_mem_decimal h

theorem le_of_mem_text (now : Tm) : ∀ c ∈ now.text, 32 ≤ c := by
  have hwday : ∀ i : Fin 7, ∀ c ∈ ascii Tm.wdayName[i], 32 ≤ c := by decide +kernel
  have hmon : ∀ i : Fin 12, ∀ c ∈ ascii Tm.monName[i], 32 ≤ c := by decide +kernel
  have hspace : (32 : UInt8) ≤ 32 := by decide
  have hzero : (32 : UInt8) ≤ 48 := by decide
  have hcolon : (32 : UInt8) ≤ 58 := by decide
  intro c hc
  simp only [Tm.text, List.mem_append, List.mem_cons] at hc
  rcases hc with hc | rfl | hc | hc | rfl | hc | rfl | hc | rfl | hc | rfl | hc
  · exact hwday _ c hc
  · exact hspace
  · exact hmon _ c hc
  · exact le_of_mem_field hspace hc
  · exact hspace
  · exact le_of_mem_field hzero hc
  · exact hcolon
  · exact le_of_mem_field hzero hc
  · exact hcolon
  · exact le_of_mem_field hzero hc
  · exact hspace
  · exact le_of_mem_decimal hc

theorem not_mem_text (now : Tm) (hc : c < 32) : c ∉ now.text :=
  fun hmem => absurd (le_of_mem_text now c hmem) (UInt8.not_le.mpr hc)

theorem length_field (c : UInt8) (h : 0 < width) (hn : n < 10 ^ width) :
    (Tm.field c width n).length = width := by
  have hle := (length_decimal_le_iff h).mpr hn
  rw [Tm.field, List.length_append, List.length_replicate]
  omega

theorem length_text (now : Tm) : now.text.length = 24 := by
  have hwday : ∀ i : Fin 7, (ascii Tm.wdayName[i]).length = 3 := by decide
  have hmon : ∀ i : Fin 12, (ascii Tm.monName[i]).length = 3 := by decide
  have hmday := length_field 32 (by decide : 0 < 3) (Nat.lt_trans now.mday.isLt (by decide))
  have hhour := length_field 48 (by decide : 0 < 2) (Nat.lt_trans now.hour.isLt (by decide))
  have hmin := length_field 48 (by decide : 0 < 2) (Nat.lt_trans now.min.isLt (by decide))
  have hsec := length_field 48 (by decide : 0 < 2) (Nat.lt_trans now.sec.isLt (by decide))
  have hle : (decimal now.year).length ≤ 4 :=
    (length_decimal_le_iff (by decide)).mpr (Nat.lt_of_le_of_lt now.year_le (by decide))
  have hge : ¬ (decimal now.year).length ≤ 3 := by
    rw [length_decimal_le_iff (by decide)]
    exact Nat.not_lt_of_le now.year_ge
  simp only [Tm.text, List.length_append, List.length_cons, hwday, hmon, hmday, hhour, hmin, hsec]
  omega

theorem cutNewline_asctime (now : Tm) : cutNewline now.asctime = some (now.text ++ [0, 0]) := by
  have hnul : 0 ∉ now.text := not_mem_text now (by decide)
  have hline : 10 ∉ now.text := not_mem_text now (by decide)
  exact cutNewline_append hnul hline [0]

theorem cstr_text (now : Tm) : cstr (now.text ++ [0, 0]) = some now.text := by
  have hnul : 0 ∉ now.text := not_mem_text now (by decide)
  exact cstr_append hnul [0]

theorem length_decimalInt_le_iff (i : Int) (k : Nat) : (decimalInt i).length ≤ k + 2 ↔
    -10 ^ (k + 1) < i ∧ i < 10 ^ (k + 2) := by
  have hcast : ∀ j : Nat, ((10 ^ j : Nat) : Int) = 10 ^ j := fun j => Int.natCast_pow 10 j
  have hpos : 0 < 10 ^ (k + 2) := Nat.pow_pos (by decide)
  have hpos' : 0 < 10 ^ (k + 1) := Nat.pow_pos (by decide)
  rw [← hcast, ← hcast, decimalInt]
  split
  · rw [List.length_cons, Nat.succ_le_succ_iff, length_decimal_le_iff (Nat.succ_pos k)]
    generalize 10 ^ (k + 1) = a at *
    generalize 10 ^ (k + 2) = b at *
    omega
  · rw [length_decimal_le_iff (Nat.succ_pos _)]
    generalize 10 ^ (k + 1) = a at *
    generalize 10 ^ (k + 2) = b at *
    omega

theorem addStr_drop (hret : ret.length = basicLineLen.toNat) (before : Bytes) (k : Nat)
    (h : cstr src = some s) (hroom : k + max.toNat ≤ 78) :
    addStr ⟨before, ret.drop k⟩ src max =
      if s.length ≤ max.toNat then
        some ⟨before ++ column max.toNat s, ret.drop (k + max.toNat)⟩
      else none := by
  have hlength : (ret.drop k).length = 78 - k := by
    rw [List.length_drop, hret]
    rfl
  have hafter : (ret.drop k).length < 2 ^ 63 := by omega
  split
  · rename_i hfits
    rw [addStr_of_le h (by change _ ≤ (ret.drop k).length; omega) hafter hfits, List.drop_drop]
  · rename_i hlong
    exact addStr_of_lt h hafter (Nat.lt_of_not_le hlong)

theorem cstr_decimalInt (i : Int) : cstr (decimalInt i ++ [0]) = some (decimalInt i) :=
  cstr_append (nul_not_mem_decimalInt i) []

theorem cstr_str (lvl : Loglvl) : cstr (lvl.str ++ [0]) = some lvl.str := by
  cases lvl <;> rfl

/-- `EditLine` lays the line out where its fields fit, and writes outside the buffer where one of
them does not. -/
theorem editLine_eq (hret : ret.length = basicLineLen.toNat) (now : Tm) (pid : Int32)
    (hfile : cstr fileName = some file) (line : Int32) (lvl : Loglvl) :
    editLine ret now pid fileName line (lvl.str ++ [0]) =
      if file.length ≤ 29 ∧ (decimalInt line.toInt).length ≤ 6 ∧ (decimalInt pid.toInt).length ≤ 8
      then some (layout now pid file line lvl ++ ret.drop 77) else none := by
  have hdate : now.text.length ≤ dateLen.toNat := by
    rw [length_text]
    decide
  have htype : lvl.str.length ≤ typeLen.toNat := by cases lvl <;> decide
  rw [editLine, cutNewline_asctime]
  simp only [Option.bind_eq_bind, Option.bind_some]
  rw [show Cursor.start ret = ⟨[], ret.drop 0⟩ from rfl,
    addStr_drop hret [] 0 (cstr_text now) (by decide), if_pos hdate, Option.bind_some,
    addStr_drop hret _ _ (cstr_decimalInt _) (by decide)]
  by_cases hid : (decimalInt pid.toInt).length ≤ idLen.toNat
  · rw [if_pos hid, Option.bind_some, addStr_drop hret _ _ hfile (by decide)]
    by_cases hname : file.length ≤ filenameLen.toNat
    · rw [if_pos hname, Option.bind_some, addStr_drop hret _ _ (cstr_decimalInt _) (by decide)]
      by_cases hline : (decimalInt line.toInt).length ≤ lineLen.toNat
      · rw [if_pos hline, Option.bind_some, addStr_drop hret _ _ (cstr_str lvl) (by decide),
          if_pos htype, Option.bind_some, if_pos ⟨hname, hline, hid⟩]
        simp only [Cursor.object, layout, List.nil_append, List.append_assoc]
        rfl
      · rw [if_neg hline, if_neg fun hfits => hline hfits.2.1]
        rfl
    · rw [if_neg hname, if_neg fun hfits => hname hfits.1]
      rfl
  · rw [if_neg hid, if_neg fun hfits => hid hfits.2.2]
    rfl

/-- For every file name, line, process and level, `EditLine` lays the line out in the first 77
bytes of the buffer, and leaves the last one alone, exactly if the file name has at most 29
characters, the line at most 6 and the process id at most 8. -/
theorem editLine_layout_iff (hret : ret.length = basicLineLen.toNat) (now : Tm) (pid : Int32)
    (hfile : cstr fileName = some file) (line : Int32) (lvl : Loglvl) :
    editLine ret now pid fileName line (lvl.str ++ [0]) =
        some (layout now pid file line lvl ++ ret.drop 77) ↔
      file.length ≤ 29 ∧ (-10 ^ 5 < line.toInt ∧ line.toInt < 10 ^ 6) ∧
        (-10 ^ 7 < pid.toInt ∧ pid.toInt < 10 ^ 8) := by
  rw [editLine_eq hret now pid hfile, ← length_decimalInt_le_iff, ← length_decimalInt_le_iff]
  split
  · rename_i hfits
    exact iff_of_true rfl hfits
  · rename_i hlong
    exact iff_of_false nofun hlong

def noon : Tm := ⟨0, 0, 12, 24, 1, 2020, 1, by decide, by decide⟩

theorem editLine_layout_cpp :
    editLine (zeros 78) noon 10869 (ascii "logger.cpp" ++ [0]) 35 (Loglvl.info.str ++ [0]) =
      some (ascii "Mon Feb 24 12:00:00 2020   10869   logger.cpp                   35    Info   " ++
        [0]) := by
  have hfile : cstr (ascii "logger.cpp" ++ [0]) = some (ascii "logger.cpp") := rfl
  exact ((editLine_layout_iff rfl noon 10869 hfile 35 .info).mpr (by decide)).trans (by decide)

/-- A file name of 30 characters. -/
theorem editLine_outside :
    editLine (zeros 78) noon 10869 (ascii "dispatcher_callback_tests2.cpp" ++ [0]) 35
        (Loglvl.info.str ++ [0]) = none ∧
      editLine (zeros 78) noon 10869 (ascii "dispatcher_callback_tests2.cpp" ++ [0]) 35
          (Loglvl.info.str ++ [0]) ≠
        some (layout noon 10869 (ascii "dispatcher_callback_tests2.cpp") 35 .info ++ [0]) := by
  have hfile : cstr (ascii "dispatcher_callback_tests2.cpp" ++ [0]) =
      some (ascii "dispatcher_callback_tests2.cpp") := rfl
  have hret : (zeros 78).length = basicLineLen.toNat := rfl
  have hnone := (editLine_eq hret noon 10869 hfile 35 .info).trans (if_neg (by decide))
  refine ⟨hnone, ?_⟩
  rw [hnone]
  exact nofun

def baseName (s : Bytes) : Bytes :=
  match s.dropWhile (· ≠ 47) with
  | [] => s
  | _ :: file => file

theorem toSlash_append (hs : 0 ∉ s) (t : Bytes) :
    toSlash (s ++ 0 :: t) = some (s.dropWhile (· ≠ 47) ++ 0 :: t) := by
  induction s with
  | nil => rfl
  | cons c s ih =>
    simp only [List.mem_cons, not_or] at hs
    by_cases hc : c = 47
    · rw [List.cons_append, toSlash, if_pos (.inr hc), List.dropWhile_cons_of_neg (by simp [hc])]
      rfl
    · rw [List.cons_append, toSlash, if_neg (not_or.mpr ⟨Ne.symm hs.1, hc⟩), ih hs.2,
        List.dropWhile_cons_of_pos (by simp [hc])]

theorem getFileNameFromFullName_eq (h : cstr fullName = some s) :
    ∃ fileName, getFileNameFromFullName fullName = some fileName ∧
      cstr fileName = some (baseName s) := by
  obtain ⟨hs, t, rfl⟩ := cstr_eq_some.mp h
  rw [getFileNameFromFullName, toSlash_append hs, baseName]
  cases hslash : s.dropWhile (· ≠ 47) with
  | nil => exact ⟨_, rfl, h⟩
  | cons c rest =>
    have hmem : ∀ d ∈ c :: rest, d ∈ s := fun d hd =>
      (List.dropWhile_sublist _).subset (by rw [hslash]; exact hd)
    have hc : c ≠ 0 := fun hzero => hs (hzero ▸ hmem c (List.mem_cons_self ..))
    refine ⟨rest ++ 0 :: t, if_pos hc, cstr_append (fun hmem' => ?_) t⟩
    exact hs (hmem 0 (List.mem_cons_of_mem _ hmem'))

theorem nul_not_mem_column (h : 0 ∉ s) (width : Nat) : 0 ∉ column width s := by
  intro hmem
  have hmem := List.mem_of_mem_take hmem
  rw [List.mem_append] at hmem
  rcases hmem with hmem | hmem
  · exact h hmem
  · cases List.eq_of_mem_replicate hmem

theorem nul_not_mem_layout (now : Tm) (pid : Int32) (hfile : 0 ∉ file) (line : Int32)
    (lvl : Loglvl) : 0 ∉ layout now pid file line lvl := by
  have htext : 0 ∉ now.text := not_mem_text now (by decide)
  have hlvl : 0 ∉ lvl.str := (cstr_eq_some.mp (cstr_str lvl)).1
  simp only [layout, List.mem_append, not_or]
  exact ⟨nul_not_mem_column htext _, nul_not_mem_column (nul_not_mem_decimalInt _) _,
    nul_not_mem_column hfile _, nul_not_mem_column (nul_not_mem_decimalInt _) _,
    nul_not_mem_column hlvl _⟩

theorem drop_set_self {l : Bytes} (h : l.length = n + 1) : (l.set n c).drop n = [c] := by
  have hlength : (l.set n c).length = n + 1 := List.length_set.trans h
  rw [List.drop_eq_getElem_cons (by omega), List.getElem_set_self,
    List.drop_eq_nil_of_le (Nat.le_of_eq hlength)]

theorem write_eq {lvl : Loglvl} (log : Logger) (block : Nat → UInt8) (now : Tm) (pid : Int32)
    (thread : Bytes) (hlvl : lvl.value ≤ log.lvl.value) (msg : Bytes)
    (hsrc : cstr (srcFile ++ [0]) = some s) (line : Int32) :
    log.write block now pid thread lvl msg srcFile line =
      if (baseName s).length ≤ 29 ∧ (decimalInt line.toInt).length ≤ 6 ∧
        (decimalInt pid.toInt).length ≤ 8
      then some { log with file := log.file ++
        (layout now pid (baseName s) line lvl ++ thread ++ ascii "  " ++ msg ++ ascii "\n") }
      else none := by
  obtain ⟨fileName, hname, hfile⟩ := getFileNameFromFullName_eq hsrc
  have hlength : ((uninit block basicLineLen.toNat).set (basicLineLen.toNat - 1) 0).length =
      basicLineLen.toNat := by
    rw [List.length_set, length_uninit]
  have hnul : ((uninit block basicLineLen.toNat).set (basicLineLen.toNat - 1) 0).drop 77 = [0] :=
    drop_set_self (length_uninit ..)
  have hlayout := nul_not_mem_layout now pid (cstr_eq_some.mp hfile).1 line lvl
  rw [write, if_pos hlvl, hname]
  simp only [Option.bind_eq_bind, Option.bind_some, editLine_eq hlength now pid hfile, hnul]
  split
  · rw [Option.bind_some, cstr_append hlayout]
    rfl
  · rfl

end Logger

end GreenCloud
