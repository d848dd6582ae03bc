import JavaClass.Annotation.Display
import JavaClass.Byte.Session
import JavaClass.Main
import JavaClass.Proofs.Relocation.Annotation
import JavaClass.Signature.Parser
import JavaClass.Proofs.Relocation.Instruction
import JavaClass.Proofs.Relocation.Attribute
import JavaClass.Proofs.Relocation.Constant
import JavaClass.Proofs.Image.Stages
import JavaClass.Proofs.Image.Extent
import JavaClass.Proofs.Number.Pattern
import JavaClass.Proofs.Serial.Annotation
import JavaClass.Proofs.Serial.Constant
import JavaClass.Proofs.Serial.Attribute
import JavaClass.Proofs.Serial.Image
import JavaClass.Proofs.Attribute.Family
import JavaClass.Proofs.Attribute.Isolation
import JavaClass.Proofs.Image.Isolation
import JavaClass.Proofs.Constant.Description
import JavaClass.Proofs.Image.Faults
import JavaClass.Proofs.Serial.Account
import JavaClass.Proofs.Attribute.Tiling
import JavaClass.Proofs.Constant.Layout
import JavaClass.Proofs.Image.Tiling
import JavaClass.Proofs.Constant.RoundTrip
import JavaClass.Proofs.Constant.Reference
import JavaClass.Proofs.Constant.Walk
import JavaClass.Proofs.Instruction.Nomenclature
import JavaClass.Proofs.Instruction.Assembly
import JavaClass.Proofs.Instruction.Disassembly
import JavaClass.Proofs.Relocation.Slice
import JavaClass.Proofs.Attribute.Unlisted
import JavaClass.Proofs.Image.Unlisted
import JavaClass.Proofs.Descriptor.Grammar
import JavaClass.Proofs.Signature.Grammar
import JavaClass.Proofs.Signature.Cutting
import JavaClass.Proofs.Signature.Reading
import JavaClass.Proofs.Signature.Derivation
import JavaClass.Proofs.Signature.Plain
import JavaClass.Proofs.Instruction.Course
import JavaClass.Proofs.Instruction.Width
import JavaClass.Proofs.Attribute.Truncation
import JavaClass.Proofs.Attribute.Throughout
import JavaClass.Proofs.Image.Listed
import JavaClass.Proofs.Annotation.RoundTrip
import JavaClass.Proofs.Constant.Unresolved
import JavaClass.Proofs.Text.Utf8
import JavaClass.Proofs.Text.Utf16
import JavaClass.Proofs.Text.ModifiedUtf8
import JavaClass.Proofs.Byte.Session
import JavaClass.Proofs.Attribute.Records
import JavaClass.Proofs.Descriptor.Blame
import JavaClass.Proofs.Number.Single
