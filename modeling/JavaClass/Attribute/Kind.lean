/-
  JavaClass.Attribute.Kind — the attributes whose payload is known, by name.
-/

namespace JavaClass

/-- The known attributes. -/
inductive AttributeKind where
  | constantValue
  | code
  | stackMapTable
  | exceptions
  | innerClasses
  | enclosingMethod
  | synthetic
  | deprecated
  | signature
  | sourceFile
  | sourceDebugExtension
  | lineNumbers
  | localVariables
  | localVariableTypes
  | annotations (visible : Bool)
  | parameterAnnotations (visible : Bool)
  | typeAnnotations (visible : Bool)
  | annotationDefault
  | bootstrapMethods
  | methodParameters
  | moduleDeclaration
  | modulePackages
  | moduleMainClass
  | moduleHashes
  | moduleTarget
  | moduleResolution
  | nestHost
  | nestMembers
  | recordComponents
  | permittedSubclasses
deriving DecidableEq, Repr

namespace AttributeKind

/-- The known attribute of a name. -/
def ofName? : String → Option AttributeKind
  | "ConstantValue" => some constantValue
  | "Code" => some code
  | "StackMapTable" => some stackMapTable
  | "Exceptions" => some exceptions
  | "InnerClasses" => some innerClasses
  | "EnclosingMethod" => some enclosingMethod
  | "Synthetic" => some synthetic
  | "Deprecated" => some deprecated
  | "Signature" => some signature
  | "SourceFile" => some sourceFile
  | "SourceDebugExtension" => some sourceDebugExtension
  | "LineNumberTable" => some lineNumbers
  | "LocalVariableTable" => some localVariables
  | "LocalVariableTypeTable" => some localVariableTypes
  | "RuntimeVisibleAnnotations" => some (annotations true)
  | "RuntimeInvisibleAnnotations" => some (annotations false)
  | "RuntimeVisibleParameterAnnotations" => some (parameterAnnotations true)
  | "RuntimeInvisibleParameterAnnotations" => some (parameterAnnotations false)
  | "RuntimeVisibleTypeAnnotations" => some (typeAnnotations true)
  | "RuntimeInvisibleTypeAnnotations" => some (typeAnnotations false)
  | "AnnotationDefault" => some annotationDefault
  | "BootstrapMethods" => some bootstrapMethods
  | "MethodParameters" => some methodParameters
  | "Module" => some moduleDeclaration
  | "ModulePackages" => some modulePackages
  | "ModuleMainClass" => some moduleMainClass
  | "ModuleHashes" => some moduleHashes
  | "ModuleTarget" => some moduleTarget
  | "ModuleResolution" => some moduleResolution
  | "NestHost" => some nestHost
  | "NestMembers" => some nestMembers
  | "Record" => some recordComponents
  | "PermittedSubclasses" => some permittedSubclasses
  | _ => none

end AttributeKind

end JavaClass
