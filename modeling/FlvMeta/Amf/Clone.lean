import FlvMeta.Amf.Data

/-!
# Cloning values

`amfDataClone` copies a value, but has no copy of null and undefined: it returns NULL for them,
and inside a list puts NULL in their place. So a clone is equal to its original exactly when
the original holds neither at any depth (`amfDataClone_eq_iff`).
-/

namespace FlvMeta

variable {N : Type}

mutual

def amfDataClone : AmfData N → AmfData N
  | .nullPtr => .nullPtr
  | .number x => .number x
  | .boolean b => .boolean b
  | .string s => .string s
  | .object list => .object (amfListClone list)
  | .null _ => .nullPtr
  | .undefined => .nullPtr
  | .associativeArray list => .associativeArray (amfListClone list)
  | .array list => .array (amfListClone list)
  | .date milliseconds timezone => .date milliseconds timezone
  | .other _ => .nullPtr

/-- `amf_list_clone`; the nodes of NULL clones stay. -/
def amfListClone : List (AmfData N) → List (AmfData N)
  | [] => []
  | data :: list => amfDataClone data :: amfListClone list

end

mutual

/-- Values of a type that can be cloned, at every depth. -/
def Cloneable : AmfData N → Prop
  | .nullPtr => True
  | .number _ => True
  | .boolean _ => True
  | .string _ => True
  | .object list => CloneableList list
  | .null _ => False
  | .undefined => False
  | .associativeArray list => CloneableList list
  | .array list => CloneableList list
  | .date _ _ => True
  | .other _ => False

def CloneableList : List (AmfData N) → Prop
  | [] => True
  | data :: list => Cloneable data ∧ CloneableList list

end

mutual

theorem amfDataClone_eq_iff : ∀ data : AmfData N, amfDataClone data = data ↔ Cloneable data
  | .nullPtr => by simp [amfDataClone, Cloneable]
  | .number x => by simp [amfDataClone, Cloneable]
  | .boolean b => by simp [amfDataClone, Cloneable]
  | .string s => by simp [amfDataClone, Cloneable]
  | .object list => by simp [amfDataClone, Cloneable, amfListClone_eq_iff list]
  | .null e => by simp [amfDataClone, Cloneable]
  | .undefined => by simp [amfDataClone, Cloneable]
  | .associativeArray list => by simp [amfDataClone, Cloneable, amfListClone_eq_iff list]
  | .array list => by simp [amfDataClone, Cloneable, amfListClone_eq_iff list]
  | .date ms tz => by simp [amfDataClone, Cloneable]
  | .other t => by simp [amfDataClone, Cloneable]

theorem amfListClone_eq_iff : ∀ list : List (AmfData N),
    amfListClone list = list ↔ CloneableList list
  | [] => by simp [amfListClone, CloneableList]
  | data :: list => by
    simp [amfListClone, CloneableList, amfDataClone_eq_iff data, amfListClone_eq_iff list]

end

end FlvMeta
