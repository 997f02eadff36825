import BotBrew.Cookbook.FuelProperties
import BotBrew.Cookbook.SessionProperties
import BotBrew.Cookbook.IsolationProperties
import BotBrew.Cookbook.BuildOrder
import BotBrew.Cookbook.BuildOrderProperties
import BotBrew.Opkg.Version
import BotBrew.Comparison.Lexicographic
import BotBrew.Opkg.Package
import BotBrew.Opkg.VersionProperties
import BotBrew.Opkg.Packages
import BotBrew.Opkg.PackagesProperties
import BotBrew.Opkg.Buildyaml
import BotBrew.Opkg.FieldProperties
import BotBrew.Opkg.ControlProperties
import BotBrew.Opkg.Index
import BotBrew.Opkg.StanzaProperties
import BotBrew.Opkg.IndexProperties
import BotBrew.Agcc.Command
import BotBrew.Agcc.CommandProperties
import BotBrew.Agcc.PassThrough
import BotBrew.Agcc.ModeOrder
import BotBrew.Opkg.ArchConf
import BotBrew.Opkg.ArchConfProperties
import BotBrew.Digraph.Faithful
import BotBrew.Listing.Graph
import BotBrew.Listing.GraphProperties
import BotBrew.Listing.Makefile
import BotBrew.Listing.MakefileProperties
import BotBrew.Device.Mounts
import BotBrew.Device.MountsProperties
import BotBrew.Recipe.InterpreterPath
import BotBrew.Recipe.InterpreterPathProperties
import BotBrew.Text.Format
import BotBrew.Opkg.Staging
import BotBrew.Opkg.StagingProperties
import BotBrew.Opkg.Build
import BotBrew.Opkg.BuildProperties
import BotBrew.Recipe.CrossLibConfig
import BotBrew.Recipe.CrossLibConfigProperties
import BotBrew.Recipe.Preparation
import BotBrew.Recipe.PreparationProperties
import BotBrew.FileSystem.Basic
import BotBrew.FileSystem.WalkProperties
import BotBrew.Device.Ldimport
import BotBrew.Device.LdimportProperties
import BotBrew.Device.Unbootstrap
import BotBrew.Device.UnbootstrapProperties
import BotBrew.FileSystem.Reading
import BotBrew.Opkg.ArFile
import BotBrew.Opkg.ArFileProperties
import BotBrew.Opkg.ArSession
import BotBrew.Cookbook.Isolation
import BotBrew.Cookbook.IsolationProperties
import BotBrew.Words.Limbs
import BotBrew.Words.Strings
import BotBrew.Words.Alignment
import BotBrew.Hashing.Blocks
import BotBrew.Hashing.Sha1
import BotBrew.Mincrypt.Sha
import BotBrew.Mincrypt.ShaProperties
import BotBrew.Mincrypt.Rsa
import BotBrew.Mincrypt.RsaProperties
import BotBrew.BootImage.Header
import BotBrew.BootImage.Mkbootimg
import BotBrew.BootImage.MkbootimgProperties
import BotBrew.BootImage.Unpackbootimg
import BotBrew.BootImage.UnpackbootimgProperties
import BotBrew.Archive.Newc
import BotBrew.Archive.FsConfig
import BotBrew.Archive.FsConfigProperties
import BotBrew.Archive.Mkbootfs
import BotBrew.Archive.MkbootfsProperties
import BotBrew.Archive.TreeProperties
import BotBrew.Archive.ArchiveProperties
import BotBrew.Comparison.Lists
import BotBrew.Opkg.CompareVersions
import BotBrew.Opkg.CompareVersionsProperties
import BotBrew.Opkg.VersionAgreement
import BotBrew.Dictionary.Filling
import BotBrew.Opkg.MakeIndex
import BotBrew.Opkg.MakeIndexProperties
import BotBrew.Opkg.MakeIndexRuns
import BotBrew.Opkg.MorgueProperties
import BotBrew.Opkg.FilelistProperties
