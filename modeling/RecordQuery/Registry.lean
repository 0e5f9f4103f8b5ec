import RecordQuery.NameTable
import RecordQuery.Record.Basic
/-! The record types and factories that a statement knows by name. -/

namespace RecordQuery

structure TypeRegistry where
  types : NameTable RecordType
  factories : NameTable RecordFactory
deriving Inhabited

namespace TypeRegistry

def empty : TypeRegistry := ⟨.empty, .empty⟩

def get? (registry : TypeRegistry) (name : String) : Option RecordType := registry.types.get? name

def factory? (registry : TypeRegistry) (name : String) : Option RecordFactory := registry.factories.get? name

def register (registry : TypeRegistry) (type : RecordType) : TypeRegistry :=
  { registry with types := registry.types.insert type.name type }

/-- Registers a factory, and its type unless one of that name is known. -/
def registerFactory (registry : TypeRegistry) (factory : RecordFactory) : TypeRegistry :=
  { types := registry.types.insertNew factory.type.name factory.type
    factories := registry.factories.insert factory.type.name factory }

/-- Adds what the other registry has under names not taken here. -/
def merge (registry other : TypeRegistry) : TypeRegistry :=
  ⟨registry.types.merge other.types, registry.factories.merge other.factories⟩

def size (registry : TypeRegistry) : Nat := registry.types.size

end TypeRegistry

end RecordQuery
