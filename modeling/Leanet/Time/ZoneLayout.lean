import Leanet.Time.ZoneFile

/-! The first version of the time zone file format, written and read back.

A `Layout` is what such a file says, with every index inside its table and every table no
longer than its count can say. `Layout.file` writes it: the magic, the version, the reserved
bytes, the six counts, then the times of the transitions, the types they switch to, the types
of local time and the abbreviations. Numbers stand with their most significant byte first.

The parser undoes the writing, section by section (`parse_undoes`), whatever comes after the
file (`parseTimeZoneFile_file`). -/
namespace Leanet.ZoneFile
open Reader

/-- A type of local time. -/
structure Ttinfo where
  gmtoff : Int32
  isdst : UInt8
  abbrind : UInt8
  deriving DecidableEq, Repr

/-- A transition to one of the types. -/
structure Switch (types : List Ttinfo) where
  time : Int32
  idx : UInt8
  lt : idx.toNat < types.length

structure Layout where
  version : UInt8
  reserved : Vector UInt8 15
  isgmtcnt : Int32
  isstdcnt : Int32
  leapcnt : Int32
  types : List Ttinfo
  transitions : List (Switch types)
  abbreviation : List UInt8
  types_length : types.length < 2147483648
  transitions_length : transitions.length < 2147483648
  abbreviation_length : abbreviation.length < 2147483648

/-- The four bytes of an `int32_t`. -/
def bigEndian (x : Int32) : List UInt8 :=
  [(x.toUInt32 >>> 24).toUInt8, (x.toUInt32 >>> 16).toUInt8, (x.toUInt32 >>> 8).toUInt8,
    x.toUInt32.toUInt8]

def Ttinfo.bytes (y : Ttinfo) : List UInt8 := bigEndian y.gmtoff ++ ([y.isdst] ++ [y.abbrind])

def Ttinfo.localtime (y : Ttinfo) : Localtime :=
  ⟨y.gmtoff.toInt64.toInt, y.isdst ≠ 0, y.abbrind.toNat⟩

namespace Switch
variable {types : List Ttinfo}

def type (t : Switch types) : Ttinfo := types.get ⟨t.idx.toNat, t.lt⟩

/-- The sum is one of `time_t`. -/
def transition (t : Switch types) : Transition :=
  ⟨t.time.toInt64.toInt, (t.time.toInt64 + t.type.gmtoff.toInt64).toInt, t.idx.toNat⟩

end Switch

namespace Layout

def counts (z : Layout) : List UInt8 :=
  bigEndian z.isgmtcnt ++ (bigEndian z.isstdcnt ++ (bigEndian z.leapcnt ++
    (bigEndian (.ofNat z.transitions.length) ++ (bigEndian (.ofNat z.types.length) ++
      bigEndian (.ofNat z.abbreviation.length)))))

def header (z : Layout) : List UInt8 :=
  magic ++ ([z.version] ++ (z.reserved.toList ++ z.counts))

def file (z : Layout) : List UInt8 :=
  z.header ++ (z.transitions.flatMap (bigEndian ·.time) ++ (z.transitions.map (·.idx) ++
    (z.types.flatMap Ttinfo.bytes ++ z.abbreviation)))

/-- The tables the file describes. -/
def data (z : Layout) : Data where
  transitions := z.transitions.map Switch.transition
  localtimes := z.types.map Ttinfo.localtime
  abbreviation := z.abbreviation

end Layout

/-- One type, one transition to it. -/
example : (Layout.mk 0 (.replicate 15 0) 0 0 0 [⟨3600, 1, 0⟩] [⟨-1, 0, by decide⟩] [67, 69, 0]
    (by decide) (by decide) (by decide)).file.drop 32 =
      [0, 0, 0, 1, 0, 0, 0, 1, 0, 0, 0, 3, 255, 255, 255, 255, 0, 0, 0, 14, 16, 1, 0, 67, 69, 0] := by
  decide

/-! ### Numbers -/

/-- The bytes put together again are the number, with its sign. -/
theorem ntohl_bigEndian (x : Int32) : ntohl (bigEndian x) = x.toInt := by
  have hlt : x.toUInt32.toNat < 4294967296 := x.toUInt32.toNat_lt
  have hint : x.toInt = if 2 * x.toUInt32.toNat < 4294967296 then (x.toUInt32.toNat : Int)
      else x.toUInt32.toNat - 4294967296 := BitVec.toInt_eq_toNat_cond x.toBitVec
  rw [hint]
  simp only [ntohl, bigEndian, List.foldl_cons, List.foldl_nil, UInt32.toNat_toUInt8,
    UInt32.toNat_shiftRight, UInt32.reduceToNat, Nat.reduceMod, Nat.shiftRight_eq_div_pow]
  split <;> split <;> omega

/-- Two 32-bit numbers add up in 64 bits. -/
theorem toInt_add_toInt64 (x y : Int32) : (x.toInt64 + y.toInt64).toInt = x.toInt + y.toInt := by
  have hx := x.toInt_lt
  have hx' := x.le_toInt
  have hy := y.toInt_lt
  have hy' := y.le_toInt
  rw [Int64.toInt_add, Int32.toInt_toInt64, Int32.toInt_toInt64]
  exact Int.bmod_eq_of_le (by omega) (by omega)

theorem undoes_readInt32 (x : Int32) : Undoes File.readInt32 (bigEndian x) x.toInt fun data => data := by
  rw [← ntohl_bigEndian]
  have h : (bigEndian x).length = 4 := rfl
  exact (undoes_read h).map

theorem undoes_readUInt8 (b : UInt8) :
    Undoes File.readUInt8 [b] b.toNat fun data => data :=
  (undoes_read List.length_singleton).map

theorem undoes_readBytes (bytes : List UInt8) {n : Int} (hn : n = bytes.length) :
    Undoes (File.readBytes n) bytes bytes fun data => data := by
  subst hn
  rw [File.readBytes, if_neg (by omega)]
  exact undoes_read (Int.toNat_natCast _).symm

/-- A count says how long its table is. -/
theorem undoes_count {α : Type} {l : List α} (h : l.length < 2147483648) :
    Undoes File.readInt32 (bigEndian (.ofNat l.length)) l.length fun data => data := by
  rw [← Int32.toInt_ofNat_of_lt h]
  exact undoes_readInt32 _

/-! ### Sections -/

theorem undoes_parseLocaltime (y : Ttinfo) : Undoes parseLocaltime y.bytes () fun data =>
    { data with localtimes := data.localtimes ++ [y.localtime] } := by
  have h : Undoes parseLocaltime y.bytes () _ :=
    (undoes_readInt32 y.gmtoff).bind
      ((undoes_readUInt8 y.isdst).bind ((undoes_readUInt8 y.abbrind).bind undoes_modify))
  have hdst : (y.isdst.toNat ≠ 0) = (y.isdst ≠ 0) :=
    propext (not_congr (UInt8.toNat_inj (b := 0)))
  simpa only [Ttinfo.localtime, hdst, Int32.toInt_toInt64] using h

/-- The types, one after another. -/
theorem undoes_localtimes (types : List Ttinfo) :
    Undoes (times parseLocaltime types.length) (types.flatMap Ttinfo.bytes)
      (types.map fun _ => ()) fun data =>
        { data with localtimes := data.localtimes ++ types.map Ttinfo.localtime } := by
  simpa only [foldl_localtimes] using Undoes.times fun y _ => undoes_parseLocaltime y

theorem undoes_trans {types : List Ttinfo} (transitions : List (Switch types)) :
    Undoes (times File.readInt32 transitions.length) (transitions.flatMap (bigEndian ·.time))
      (transitions.map (·.time.toInt)) fun data => data := by
  simpa using Undoes.times fun (t : Switch types) _ => undoes_readInt32 t.time

theorem undoes_indices {types : List Ttinfo} (transitions : List (Switch types)) :
    Undoes (times File.readUInt8 transitions.length) (transitions.map (·.idx))
      (transitions.map (·.idx.toNat)) fun data => data := by
  have h := Undoes.times fun (t : Switch types) (_ : t ∈ transitions) => undoes_readUInt8 t.idx
  rw [List.map_eq_flatMap]
  simpa using h

/-- An index of the file finds the type it was written for. -/
theorem transitionAt_eq {types : List Ttinfo} (transitions : List (Switch types)) :
    (List.range transitions.length).map (transitionAt (transitions.map (·.time.toInt))
      (transitions.map (·.idx.toNat)) (types.map Ttinfo.localtime)) =
      (transitions.map Switch.transition).map some := by
  refine List.ext_getElem (by simp) fun i hi _ => ?_
  have hlt : i < transitions.length := by simpa using hi
  have htype : types[transitions[i].idx.toNat]? = some transitions[i].type :=
    List.getElem?_eq_getElem transitions[i].lt
  simp only [List.getElem_map, List.getElem_range, transitionAt, List.getElem?_map,
    List.getElem?_eq_getElem hlt, Option.map_some, Option.bind_eq_bind, Option.bind_some, htype,
    Switch.transition, Ttinfo.localtime, toInt_add_toInt64, Int32.toInt_toInt64, Option.pure_def]

namespace Layout
variable (z : Layout)

theorem undoes_header : Undoes parseHeader z.header
    ((z.transitions.length : Int), (z.types.length : Int), (z.abbreviation.length : Int)) fun data => data := by
  have hcounts : Undoes (do
      let _isgmtcnt ← File.readInt32
      let _isstdcnt ← File.readInt32
      let _leapcnt ← File.readInt32
      let timecnt ← File.readInt32
      let typecnt ← File.readInt32
      let charcnt ← File.readInt32
      pure (timecnt, typecnt, charcnt)) z.counts _ _ :=
    (undoes_readInt32 _).bind ((undoes_readInt32 _).bind ((undoes_readInt32 _).bind
      ((undoes_count z.transitions_length).bind ((undoes_count z.types_length).bind
        (undoes_count z.abbreviation_length).map))))
  have hreserved : (15 : Int) = z.reserved.toList.length := by
    rw [Vector.length_toList]
    rfl
  have hmagic : Undoes (File.readBytes 4) magic magic fun data => data := undoes_readBytes _ rfl
  exact hmagic.bind ((undoes_readBytes [z.version] rfl).bind
    ((undoes_readBytes _ hreserved).bind hcounts))

/-- The parser takes the file's tables and leaves what comes after. -/
theorem reads_file (trailing : List UInt8) :
    Reads parse ⟨z.file ++ trailing, ⟨[], [], []⟩⟩ () ⟨trailing, z.data⟩ := by
  have hneg : ¬ ((z.transitions.length : Int) < 0) := by omega
  rw [parse, reads_bind, file, List.append_assoc]
  refine ⟨_, _, z.undoes_header _ _, ?_⟩
  simp only [hneg, if_false, Int.toNat_natCast, List.append_assoc, reads_bind]
  exact ⟨_, _, undoes_trans z.transitions _ _, _, _, undoes_indices z.transitions _ _,
    _, _, undoes_localtimes z.types _ _,
    (), _, reads_transitions.mpr ⟨_, transitionAt_eq z.transitions, rfl⟩,
    _, _, undoes_readBytes z.abbreviation rfl _ _, reads_modify.mpr rfl⟩

/-- **Parsing undoes the layout.** -/
theorem parseTimeZoneFile_file (trailing : List UInt8) :
    parseTimeZoneFile (some (z.file ++ trailing)) ⟨[], [], []⟩ = .ok (true, z.data) := by
  have h : parse ⟨z.file ++ trailing, ⟨[], [], []⟩⟩ = (.ok (), ⟨trailing, z.data⟩) :=
    z.reads_file trailing
  simp only [parseTimeZoneFile, h, deref_some, ok_bind, pure_eq_ok]

end Layout

end Leanet.ZoneFile
