import JanaExtensions.PathNames
import JanaExtensions.RegistryRuns
import JanaExtensions.SymbolCode

/-! The paths of the dumps: names can be read back from them, and cannot lead out of the
directory of the detector. -/

namespace JanaExtensions

namespace DetectorTranslators

open SymbolCode Failing HitTypes

/-- The component for a name, which may be any bytes. -/
def pathComponentOf (name : List UInt8) : String := String.ofList (name.flatMap encodeByte)

theorem pathComponent_eq (name : String) :
    pathComponent name = pathComponentOf name.toUTF8.toList := rfl

/-- The path of the dump of the hits with the displayed type name for the detector. -/
def dumpPath (detector typeName : List UInt8) : String :=
  pathComponentOf detector ++ "/" ++ (pathComponentOf typeName ++ ".csv")

/-- A writer is added with the path of its names, which no other writer has. -/
theorem paths_addWriter {T S : Type} [HitTypes T] {dump dump' : DetectorTranslationDump T S}
    {raw digi : T} {detector header : String} {writeRow : Option (RowWriter S digi)}
    (h : dump.addWriter raw digi detector header writeRow = .ok dump') :
    ∃ typeName, demangledName raw = some typeName ∧
      dumpPath detector.toUTF8.toList typeName.toUTF8.toList ∉ dump.paths ∧
      dump'.paths = dumpPath detector.toUTF8.toList typeName.toUTF8.toList :: dump.paths := by
  rw [DetectorTranslationDump.addWriter.eq_def] at h
  split at h
  · cases h
  · obtain ⟨-, h⟩ := ite_error_eq_ok.mp h
    obtain ⟨filename, hfilename, h⟩ := bind_eq_ok.mp h
    obtain ⟨hnew, h⟩ := ite_error_eq_ok.mp h
    obtain rfl := Except.ok.inj h
    rw [rawHitFilename] at hfilename
    cases hname : demangledName raw with
    | none => simp [hname] at hfilename
    | some typeName =>
      rw [hname] at hfilename
      obtain rfl := Except.ok.inj hfilename
      exact ⟨typeName, rfl, hnew, rfl⟩

def hexValue (digit : Char) : Option Nat := "0123456789ABCDEF".toList.idxOf? digit

/-- The first byte of a component, which may be an escape. -/
def readByte : List Char → Option (UInt8 × List Char)
  | [] => none
  | '%' :: high :: low :: rest =>
    (hexValue high).bind fun h => (hexValue low).map fun l => (UInt8.ofNat (16 * h + l), rest)
  | c :: rest => if c = '%' then none else some (UInt8.ofNat c.toNat, rest)

def percentDecode (component : String) : Option (List UInt8) := readAll readByte component.toList

/-- A character that a component can have. -/
def isComponentChar (c : Char) : Bool := c.isAlphanum || c = '_' || c = '-' || c = '%'

theorem hexValue_hexDigit : ∀ n < 16, hexValue (hexDigit n) = some n := by decide +kernel

theorem plain_byte : ∀ n < 256, isPlain (UInt8.ofNat n) = true →
    Char.ofNat n ≠ '%' ∧ (Char.ofNat n).toNat = n := by decide +kernel

theorem encodeByte_chars_lt : ∀ n < 256,
    (encodeByte (UInt8.ofNat n)).all isComponentChar = true := by decide +kernel

theorem readByte_encodeByte (byte : UInt8) (rest : List Char) :
    readByte (encodeByte byte ++ rest) = some (byte, rest) := by
  have hlt := byte.toNat_lt
  rw [encodeByte]
  by_cases hplain : isPlain byte = true
  · have hbyte := plain_byte byte.toNat hlt (by rwa [UInt8.ofNat_toNat])
    rw [if_pos hplain, List.singleton_append, readByte, if_neg hbyte.1, hbyte.2, UInt8.ofNat_toNat]
    intro high low rest hpercent
    exact absurd hpercent hbyte.1
  · have hhigh := hexValue_hexDigit (byte.toNat / 16) (by omega)
    have hlow := hexValue_hexDigit (byte.toNat % 16) (by omega)
    have hbyte : 16 * (byte.toNat / 16) + byte.toNat % 16 = byte.toNat := by omega
    simp only [if_neg hplain, List.cons_append, List.nil_append, readByte, hhigh, hlow,
      Option.bind_some, Option.map_some, hbyte, UInt8.ofNat_toNat]

theorem reads_encodeByte : Reads readByte encodeByte where
  read_write := readByte_encodeByte
  write_ne_nil byte := by
    rw [encodeByte]
    split <;> simp

theorem percentDecode_pathComponentOf (name : List UInt8) :
    percentDecode (pathComponentOf name) = some name := by
  rw [percentDecode, pathComponentOf, String.toList_ofList]
  exact reads_encodeByte.readAll_flatMap name

theorem pathComponentOf_injective : Function.Injective pathComponentOf := by
  intro name name' heq
  have hchars : name.flatMap encodeByte = name'.flatMap encodeByte := String.ofList_injective heq
  exact reads_encodeByte.flatMap_injective hchars

theorem isComponentChar_of_mem {name : List UInt8} {c : Char}
    (hc : c ∈ (pathComponentOf name).toList) : isComponentChar c = true := by
  rw [pathComponentOf, String.toList_ofList, List.mem_flatMap] at hc
  obtain ⟨byte, -, hc⟩ := hc
  have hall := encodeByte_chars_lt byte.toNat byte.toNat_lt
  rw [UInt8.ofNat_toNat] at hall
  exact List.all_eq_true.mp hall c hc

theorem slash_notMem_pathComponentOf (name : List UInt8) :
    '/' ∉ (pathComponentOf name).toList := by
  intro hslash
  have hchar := isComponentChar_of_mem hslash
  revert hchar
  decide

theorem pathComponentOf_ne_nil {name : List UInt8} (hne : name ≠ []) :
    (pathComponentOf name).toList ≠ [] := by
  obtain ⟨byte, rest, rfl⟩ := List.exists_cons_of_ne_nil hne
  rw [pathComponentOf, String.toList_ofList, List.flatMap_cons]
  simp [reads_encodeByte.write_ne_nil byte]

theorem toList_dumpPath (detector typeName : List UInt8) :
    (dumpPath detector typeName).toList = (pathComponentOf detector).toList ++
      '/' :: ((pathComponentOf typeName).toList ++ ".csv".toList) := by
  simp [dumpPath]

theorem slash_notMem_file (typeName : List UInt8) :
    '/' ∉ (pathComponentOf typeName).toList ++ ".csv".toList := by
  rw [List.mem_append, not_or]
  exact ⟨slash_notMem_pathComponentOf typeName, by decide⟩

theorem dumpPath_injective {detector typeName detector' typeName' : List UInt8}
    (h : dumpPath detector typeName = dumpPath detector' typeName') :
    detector = detector' ∧ typeName = typeName' := by
  have hchars := congrArg String.toList h
  rw [toList_dumpPath, toList_dumpPath, List.append_cons_inj_of_notMem
    (slash_notMem_pathComponentOf detector) (slash_notMem_file typeName)] at hchars
  obtain ⟨hdetector, -, hfile⟩ := hchars
  exact ⟨pathComponentOf_injective (String.toList_injective hdetector),
    pathComponentOf_injective (String.toList_injective (List.append_cancel_right hfile))⟩

theorem elements_dumpPath {detector typeName : List UInt8} (hdetector : detector ≠ []) :
    (⟨dumpPath detector typeName⟩ : Path).elements =
      [pathComponentOf detector, pathComponentOf typeName ++ ".csv"] := by
  have hnames : (⟨dumpPath detector typeName⟩ : Path).names =
      [pathComponentOf detector, pathComponentOf typeName ++ ".csv"] := by
    rw [Path.names, toList_dumpPath, Path.splitNames_append_slash,
      Path.splitNames_name (slash_notMem_pathComponentOf detector)
        (pathComponentOf_ne_nil hdetector),
      Path.splitNames_name (slash_notMem_file typeName) (by simp)]
    simp
  have hroot : (⟨dumpPath detector typeName⟩ : Path).isAbsolute = false := by
    obtain ⟨c, rest, hc⟩ := List.exists_cons_of_ne_nil (pathComponentOf_ne_nil hdetector)
    have hne : c ≠ '/' := by
      rintro rfl
      exact slash_notMem_pathComponentOf detector (by simp [hc])
    simp [Path.isAbsolute, toList_dumpPath, hc, hne]
  have hlast : (dumpPath detector typeName).toList.getLast? = some 'v' := by
    rw [toList_dumpPath, ← List.cons_append, ← List.append_assoc, List.getLast?_append]
    rfl
  rw [Path.elements_eq, hnames, hroot, hlast]
  simp

/-- Every name can be read back from its component, different names have different paths, and
a path is a directory and a file in it, whatever the names. -/
theorem dumpPath_faithful (detector typeName : List UInt8) :
    percentDecode (pathComponentOf detector) = some detector ∧
      (∀ detector' typeName', (detector, typeName) ≠ (detector', typeName') →
        dumpPath detector typeName ≠ dumpPath detector' typeName') ∧
      (detector ≠ [] → typeName ≠ [] →
        (⟨dumpPath detector typeName⟩ : Path).elements =
          [pathComponentOf detector, pathComponentOf typeName ++ ".csv"] ∧
        (∀ name ∈ [detector, typeName], pathComponentOf name ≠ "" ∧
          ∀ c ∈ (pathComponentOf name).toList, isComponentChar c = true) ∧
        ∀ element ∈ (⟨dumpPath detector typeName⟩ : Path).elements,
          element ≠ "" ∧ element ≠ "." ∧ element ≠ ".." ∧ '/' ∉ element.toList) := by
  refine ⟨percentDecode_pathComponentOf detector, ?_, ?_⟩
  · intro detector' typeName' hne heq
    obtain ⟨rfl, rfl⟩ := dumpPath_injective heq
    exact hne rfl
  · intro hdetector htype
    refine ⟨elements_dumpPath hdetector, ?_, ?_⟩
    · intro name hname
      have hne : name ≠ [] := by
        rcases List.mem_pair.mp hname with rfl | rfl
        · exact hdetector
        · exact htype
      refine ⟨fun hempty => ?_, fun c => isComponentChar_of_mem⟩
      exact pathComponentOf_ne_nil hne (by rw [hempty]; rfl)
    · rw [elements_dumpPath hdetector]
      intro element helement
      rcases List.mem_pair.mp helement with rfl | rfl
      · have hdot : '.' ∉ (pathComponentOf detector).toList := by
          intro hmem
          have hchar := isComponentChar_of_mem hmem
          revert hchar
          decide
        refine ⟨fun h => ?_, fun h => ?_, fun h => ?_, slash_notMem_pathComponentOf detector⟩
        · exact pathComponentOf_ne_nil hdetector (by rw [h]; rfl)
        · exact hdot (by simp [h])
        · exact hdot (by simp [h])
      · have hlength : 4 < (pathComponentOf typeName ++ ".csv").toList.length := by
          have hpos := List.length_pos_iff.mpr (pathComponentOf_ne_nil htype)
          simp only [String.toList_append, List.length_append]
          change 4 < _ + 4
          omega
        refine ⟨fun h => ?_, fun h => ?_, fun h => ?_, ?_⟩
        · simp [h] at hlength
        · simp [h] at hlength
        · simp [h] at hlength
        · rw [String.toList_append]
          exact slash_notMem_file typeName

end DetectorTranslators

end JanaExtensions
